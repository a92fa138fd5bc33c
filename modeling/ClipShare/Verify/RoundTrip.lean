import ClipShare.Verify.Config
import ClipShare.Verify.Containment
import ClipShare.Verify.Stream

namespace ClipShare

open Interaction Posix

/-!
# From one server to another

The files that one server sends are what another one stores when it is given the same bytes.

* `Forest` — entries of one directory, with all that is under them;
* `Serving` — what the round trip asks of the configuration;
* `getFiles_output` — what the methods for fetching files write: the frames of the leaves;
* `sendFiles_builds` — what the methods for uploading files make of these bytes;
* `files_round_trip` — both together.
-/

/-- Entries of the directory `p` that can be copied with all that is under them. -/
structure Forest (env : Env) (fs : FileSystem) (p : Path) (ns : List Name) : Prop where
  ne : ns ≠ []
  nodup : ns.Nodup
  parent : ∀ c ∈ p, Proper c ∧ (0 : UInt8) ∉ c
  there : ∀ n ∈ ns, fs.node (p ++ [n]) ≠ none
  names : ∀ n ∈ ns, ∀ q, fs.node (p ++ n :: q) ≠ none → ∀ c ∈ n :: q, Ordinary c
  plain : ∀ n ∈ ns, ∀ q, fs.node (p ++ n :: q) ≠ some .special
  depth : ∀ n ∈ ns, ∀ q, fs.node (p ++ n :: q) = some .dir → (n :: q).length ≤ 256
  short : ∀ n ∈ ns, ∀ q, fs.node (p ++ n :: q) ≠ none → (absolute (p ++ n :: q)).length ≤ 680
  sizes : ∀ n ∈ ns, ∀ q ino d, fs.node (p ++ n :: q) = some (.file ino d) →
    (d.length : Int) ≤ env.configuration.maxFileSize
  count : (fs.leavesAmong p ns).length ≤ env.configuration.maxFileCount.toNat

/-- A configuration with limits as they are once the defaults are applied, and with a working
    directory.  The fuel lasts for the longest file. -/
structure Serving (env : Env) : Prop where
  fileSize : 1 ≤ env.configuration.maxFileSize ∧ env.configuration.maxFileSize < 2 ^ 63
  fileCount : IsCount env.configuration.maxFileCount
  uncut : env.configuration.cutSentFiles = 0
  elsewhere : env.configuration.workingDir ≠ none
  fuel : env.configuration.maxFileSize.toNat < env.fuel

variable {env : Env} {h : Host} {fs : FileSystem} {p : Path} {ns : List Name}

section forest

variable (hf : Forest env fs p ns)
include hf

/-- The names on the way to a location of the forest. -/
theorem Forest.path_names {n : Name} (hn : n ∈ ns) {q : Path} (hq : fs.node (p ++ n :: q) ≠ none) :
    ∀ c ∈ p ++ n :: q, Proper c ∧ (0 : UInt8) ∉ c := by
  intro c hc
  rcases List.mem_append.mp hc with hc | hc
  · exact hf.parent c hc
  · have hord := hf.names n hn q hq c hc
    exact ⟨hord.proper, hord.zero_not_mem⟩

/-- A forest is listed. -/
theorem Forest.listable {n : Name} (hn : n ∈ ns) : Listable fs p n := by
  have hbelow : ∀ q, p ++ [n] <+: q → ∃ r, q = p ++ n :: r := by
    rintro q ⟨r, rfl⟩
    exact ⟨r, by simp⟩
  refine ⟨⟨fun q hq hnode => ?_, fun q hq hnode => ?_, fun q hq => ?_⟩, hf.there n hn,
    fun q hq => ?_, hf.short n hn [] (hf.there n hn)⟩
  · obtain ⟨r, rfl⟩ := hbelow q hq
    exact hf.path_names hn hnode
  · obtain ⟨r, rfl⟩ := hbelow q hq
    have hmax : maxFileNameLen = 2048 := rfl
    have hshort := hf.short n hn r hnode
    omega
  · obtain ⟨r, rfl⟩ := hbelow q hq
    exact hf.plain n hn r
  · have hdepth := hf.depth n hn q hq
    have hmax : maxRecurseDepth = 256 := rfl
    rw [List.length_cons] at hdepth
    omega

variable {qs : List Path} (hqs : fs.Among p ns qs)
include hqs

omit hf in
/-- The leaves of a forest lie under its entries. -/
theorem leaf_of_among {q : Path} (hq : q ∈ qs) :
    ∃ n ∈ ns, ∃ r, q = p ++ n :: r ∧ fs.node (p ++ n :: r) ≠ none := by
  obtain ⟨⟨n, hn, r, rfl⟩, hleaf⟩ := (hqs.mem q).mp hq
  have hpath : p ++ [n] ++ r = p ++ n :: r := by simp
  rw [hpath] at hleaf ⊢
  exact ⟨n, hn, r, rfl, hleaf.1⟩

/-- A forest is transferred. -/
theorem Forest.transferable (hfuel : env.configuration.maxFileSize.toNat < env.fuel) :
    ∀ q ∈ qs, Transferable env fs q ∧ ∃ cs, cs ≠ [] ∧ q = p ++ cs ∧ ∀ c ∈ cs, Ordinary c := by
  intro q hq
  obtain ⟨n, hn, r, rfl, hnode⟩ := leaf_of_among hqs hq
  refine ⟨⟨by simp, hf.path_names hn hnode, hf.short n hn r hnode, ?_⟩, n :: r,
    List.cons_ne_nil n r, rfl, hf.names n hn r hnode⟩
  obtain ⟨nd, hnd⟩ := Option.ne_none_iff_exists'.mp hnode
  cases nd with
  | dir => exact .inl hnd
  | file ino d =>
    have hsize := hf.sizes n hn r ino d hnd
    exact .inr ⟨ino, d, hnd, hsize, by omega⟩
  | special => exact absurd hnd (hf.plain n hn r)

theorem Forest.length_le :
    ns.length ≤ qs.length ∧ qs.length ≤ env.configuration.maxFileCount.toNat :=
  ⟨hqs.length_le hf.nodup hf.there, by
    rw [hqs.length_eq (FileSystem.leavesAmong_among ns)]
    exact hf.count⟩

end forest

/-! ### Sending -/

/-- The bytes for the leaves of a forest. -/
def streamOf (fs : FileSystem) (p : Path) (qs : List Path) : Bytes :=
  sizeBytes 8 qs.length ++ frames fs p qs

/-- **What is sent.**  With a forest on the clipboard, the methods for fetching files write the
    status and the frames of its leaves. -/
theorem getFiles_output (hs : Serving env) (hf : Forest env h.fs p ns)
    (hclip : OnClipboard (urisOf p ns) h) {get : Proc Status}
    (hget : get = getFilesV3 env ∨ get = getFilesV4 env) {l : Session} (hl : l.Reliable) :
    ∃ qs, h.fs.Among p ns qs ∧
      (get.run respond (l, h)).2.1.output = l.output ++ statusOk :: streamOf h.fs p qs := by
  have hlines : ns.length < 0xFFFFFFFF := by
    obtain ⟨hle, hmax⟩ := hf.length_le (FileSystem.leavesAmong_among ns)
    have hcount := hs.fileCount.2
    omega
  obtain ⟨l1, qs, hlist, ⟨-, hout1, hclosed1, horacle1⟩, hqs⟩ :=
    getCopiedDirsFiles_lists hl.fs hclip hf.ne hlines hf.nodup fun n hn => hf.listable hn
  have htransfer := hf.transferable hqs hs.fuel
  have hready : ∀ q ∈ qs, Transferable env h.fs q ∧ nameStart p < (absolute q).length := by
    intro q hq
    obtain ⟨ht, cs, hne, rfl, hnames⟩ := htransfer q hq
    exact ⟨ht, (nameFor_under hne hnames ht.short).2.1⟩
  have hne : qs ≠ [] := by
    rintro rfl
    have hle := (hf.length_le hqs).1
    exact hf.ne (List.eq_nil_of_length_eq_zero (Nat.le_zero.mp hle))
  refine ⟨qs, hqs, ?_⟩
  -- version 4 differs by the acknowledgement that it reads at the end
  rcases hget with rfl | rfl
  · obtain ⟨l2, hrun, -, hout2⟩ := @getFilesCommon_puts env h 3 (by decide) _ _ hready hne
      (hf.length_le hqs).2 l1 (hl.of_eq hclosed1 horacle1)
    unfold getFilesV3
    rw [Prog.run_bind_of_some respond hlist]
    dsimp only
    rw [hrun]
    exact hout2.trans (by rw [hout1]; rfl)
  · obtain ⟨l2, hrun, -, hout2⟩ := @getFilesCommon_puts env h 4 (by decide) _ _ hready hne
      (hf.length_le hqs).2 l1 (hl.of_eq hclosed1 horacle1)
    unfold getFilesV4
    rw [Prog.run_bind_of_some respond hlist]
    dsimp only
    rw [thenAck_output hrun]
    exact hout2.trans (by rw [hout1]; rfl)

/-! ### Receiving -/

section receive

variable (hf : Forest env fs p ns)
include hf

/-- The entries of a forest. -/
theorem Forest.entry_iff (n : Name) : (fs.tree p).only ns [n] ≠ none ↔ n ∈ ns := by
  show (if n ∈ ns then fs.tree p [n] else none) ≠ none ↔ n ∈ ns
  by_cases hn : n ∈ ns
  · rw [if_pos hn, ne_eq, FileSystem.tree_eq_none]
    exact ⟨fun _ => hn, fun _ => hf.there n hn⟩
  · rw [if_neg hn]
    exact ⟨fun hne => absurd rfl hne, fun h0 => absurd h0 hn⟩

/-- Their names are short enough for files. -/
theorem Forest.name_short {n : Name} (hn : n ∈ ns) : n.length ≤ maxFileNameLen := by
  have hshort := (hf.listable hn).short
  have hmax : maxFileNameLen = 2048 := rfl
  have hjoined : n.length ≤ (joined (p ++ [n])).length :=
    length_le_joined (List.mem_append_right _ List.mem_cons_self)
  unfold absolute at hshort
  rw [List.length_cons] at hshort
  omega

/-- The stream announces all entries of a forest, and nothing stands where they go. -/
theorem Forest.smooth (hs : Serving env) (hp : fs.node p = some .dir) {qs : List Path}
    (hqs : fs.Among p ns qs) {version : Nat} (hversion : 3 ≤ version) {oracle : Oracle}
    (hreliable : (Session.fresh (streamOf fs p qs) oracle).Reliable)
    (hfree : ∀ q, q ≠ [] → h.fs.node (h.cwd ++ q) = none) (hname : hex (oracle.time 2) ∉ ns) :
    Smooth env version (Session.fresh (streamOf fs p qs) oracle) h (fs.entriesOf p qs) := by
  obtain ⟨hfits, hbuild⟩ := (FileSystem.leaves_only hp hqs).build_eq
  have hlen : (fs.entriesOf p qs).length = qs.length := List.length_map _
  have hcount := (hf.length_le hqs).2
  have hmax := hs.fileCount.2
  have hpos : 0 < env.fuel := Nat.lt_of_le_of_lt (Nat.zero_le _) hs.fuel
  have hsize := sizeField_append (qs.length : Int) (by omega) (by omega) (frames fs p qs)
  have hcarries : Carries env version (fs.entriesOf p qs) (frames fs p qs) [] :=
    carries_frames hversion (Int.le_of_lt hs.fileSize.1) hs.fileSize.2
      (hf.transferable hqs hs.fuel)
  obtain ⟨n, hn⟩ := List.exists_mem_of_ne_nil ns hf.ne
  refine ⟨hreliable, hpos, ⟨_, by rw [hlen]; exact hsize, hcarries⟩, by rw [hlen]; exact hcount,
    hfits, hfree _ (List.cons_ne_nil _ _), ?_⟩
  rw [hbuild]
  refine ⟨⟨n, (hf.entry_iff n).mpr hn⟩, fun m hm => hf.name_short ((hf.entry_iff m).mp hm),
    hs.elsewhere, fun m hm => ?_, fun m _ => hfree _ (List.cons_ne_nil _ _), hs.uncut⟩
  rintro rfl
  exact hname ((hf.entry_iff _).mp hm)

end receive

/-- What has arrived in an empty working directory under its own names is all that is in it. -/
theorem Arrived.tree_eq {T : Tree} {moved : List (Name × Path)} {h' : Host}
    (ha : Arrived env T moved h h') (hplaces : ∀ m ∈ moved, m.2 = h.cwd ++ [m.1])
    (hfree : ∀ q, q ≠ [] → h.fs.node (h.cwd ++ q) = none)
    (hcwd : h'.fs.node h.cwd = some .dir) (hroot : T [] = some .dir)
    (hclosed : ∀ n r, T [n] = none → T (n :: r) = none) : h'.fs.tree h.cwd = T := by
  -- location by location: the root, what lies under an entry that was sent, and all else
  funext q
  cases q with
  | nil =>
    rw [hroot]
    refine FileSystem.tree_eq_dir.mpr ?_
    rw [List.append_nil]
    exact hcwd
  | cons n r =>
    by_cases hn : T [n] = none
    · -- nothing with this name was sent, and nothing was there before
      rw [hclosed n r hn, FileSystem.tree_eq_none]
      rcases ha.rest (h.cwd ++ n :: r) with hsame | ⟨m, hm, hpre⟩
      · rw [hsame]
        exact hfree _ (List.cons_ne_nil _ _)
      · rw [hplaces m hm] at hpre
        have heq : m.1 = n := by
          by_contra hne
          exact not_prefix_sibling hne hpre
        have hmem := (ha.all m.1).mpr (List.mem_map_of_mem hm)
        rw [heq] at hmem
        exact absurd hn hmem
    · -- what lies under an entry was moved with it
      obtain ⟨m, hm, rfl⟩ := List.mem_map.mp ((ha.all n).mp hn)
      have hplaced := congrFun (ha.placed m hm) r
      rw [hplaces m hm] at hplaced
      show (h'.fs.node (h.cwd ++ m.1 :: r)).map Node.entry = T (m.1 :: r)
      rw [← List.singleton_append, ← List.append_assoc]
      exact hplaced

/-- **What is stored.**  A server with an empty working directory stores the forest. -/
theorem sendFiles_builds (hs : Serving env) (hf : Forest env fs p ns) (hp : fs.node p = some .dir)
    {qs : List Path} (hqs : fs.Among p ns qs) {version : Nat} (hversion : 3 ≤ version)
    {oracle : Oracle} (hreliable : (Session.fresh (streamOf fs p qs) oracle).Reliable)
    (hcwd : h.fs.node h.cwd = some .dir) (hempty : h.fs.list h.cwd = [])
    (hname : hex (oracle.time 2) ∉ ns) :
    let s := uploadRun env version (streamOf fs p qs) oracle h
    s.1 = some .success ∧ s.2.1.input = [] ∧ s.2.2.fs.tree h.cwd = (fs.tree p).only ns := by
  intro s
  have hleaves := FileSystem.leaves_only hp hqs
  have hfree : ∀ q, q ≠ [] → h.fs.node (h.cwd ++ q) = none := fun q hq =>
    h.fs.node_below_of_list_nil hempty hq
  have hsmooth := hf.smooth hs hp hqs hversion hreliable hfree hname
  -- each entry is delivered under its own name
  have hstands := @Session.fresh_stands env .single (streamOf fs p qs) oracle h hcwd
  obtain ⟨-, -, hgood⟩ := (sendFilesDirs_delivers hstands rfl rfl version).run
  obtain ⟨ha, hinput, htmp, moved, hdel, hplaces⟩ := hgood rfl _ hsmooth
  have hadded := uploadRun_added env version (streamOf fs p qs) oracle hcwd
  rw [hleaves.build_eq.2] at hdel
  have harrived : Arrived env ((fs.tree p).only ns) moved h s.2.2 := hdel.arrived htmp hadded
  refine ⟨ha, hinput, harrived.tree_eq hplaces hfree (hadded.contained.kept _ _ hcwd)
    hleaves.root fun n r hnone => if_neg fun hn => ?_⟩
  exact (hf.entry_iff n).mpr hn hnone

/-- **Round trip.**  The bytes that a server writes after its status for a forest on its clipboard
    are stored by a server with an empty working directory as the same forest. -/
theorem files_round_trip (hs : Serving env) (hf : Forest env h.fs p ns)
    (hclip : OnClipboard (urisOf p ns) h) {get : Proc Status}
    (hget : get = getFilesV3 env ∨ get = getFilesV4 env) {l : Session} (hl : l.Reliable)
    (hout : l.output = []) :
    ∃ stream, (get.run respond (l, h)).2.1.output = statusOk :: stream ∧
      ∀ (put : Proc Status) (oracle : Oracle) (h' : Host),
        put = sendFilesV3 env ∨ put = sendFilesV4 env →
        (Session.fresh stream oracle).Reliable →
        h'.fs.node h'.cwd = some .dir → h'.fs.list h'.cwd = [] → hex (oracle.time 2) ∉ ns →
        let s := put.run respond (Session.fresh stream oracle, h')
        s.1 = some .success ∧ s.2.1.input = [] ∧
          s.2.2.fs.tree h'.cwd = (h.fs.tree p).only ns := by
  obtain ⟨qs, hqs, hsent⟩ := getFiles_output hs hf hclip hget hl
  rw [hout, List.nil_append] at hsent
  obtain ⟨n, hn⟩ := List.exists_mem_of_ne_nil ns hf.ne
  have hp : h.fs.node p = some .dir :=
    h.fs.closed p n (Option.ne_none_iff_isSome.mp (hf.there n hn))
  refine ⟨streamOf h.fs p qs, hsent, ?_⟩
  rintro put oracle h' (rfl | rfl) hreliable hcwd hempty hname
  · exact sendFiles_builds hs hf hp hqs (le_refl 3) hreliable hcwd hempty hname
  · exact sendFiles_builds hs hf hp hqs (Nat.le_succ 3) hreliable hcwd hempty hname

/-- A file and an empty directory in the root directory. -/
def twoEntries : FileSystem :=
  (FileSystem.bare.add [] (ascii "f") (.file 0 (ascii "x")) 1 rfl rfl (by decide) (by simp)
    (by simp [FileSystem.bare])).add [] (ascii "d") .dir 1 rfl rfl (by decide)
    (fun _ _ h => Node.noConfusion h) (fun _ _ h => Node.noConfusion h)

theorem twoEntries_cases {q : Path} (hq : twoEntries.node q ≠ none) :
    q = [] ∨ q = [ascii "f"] ∨ q = [ascii "d"] := by
  by_contra hno
  simp only [not_or] at hno
  apply hq
  show (if q = [ascii "d"] then some Node.dir else if q = [ascii "f"] then
    some (Node.file 0 (ascii "x")) else if q = [] then some Node.dir else none) = none
  rw [if_neg hno.2.2, if_neg hno.2.1, if_neg hno.1]

/-- A host with both of them on its clipboard, and a server on it. -/
def twoEntriesHost : Host where
  fs := twoEntries
  cwd := []
  desktop := { Desktop.empty with clipboard := uriClipboard (urisOf [] [ascii "f", ascii "d"]) }

def smallEnv : Env where
  configuration :=
    { Env.default.configuration with maxFileSize := 9, workingDir := some (ascii "/w") }
  cwd := ascii "/w"
  fuel := 16

theorem files_round_trip_two : ∃ stream,
    ((getFilesV3 smallEnv).run respond (.fresh [] .calm, twoEntriesHost)).2.1.output
        = statusOk :: stream ∧
      ((sendFilesV4 smallEnv).run respond (.fresh stream .calm, .empty)).2.2.fs.tree []
        = (twoEntries.tree []).only [ascii "f", ascii "d"] := by
  have hreliable : ∀ input, (Session.fresh input .calm).Reliable := Session.fresh_reliable
  have hserving : Serving smallEnv :=
    ⟨by decide, by unfold IsCount; decide, by decide, by decide, by decide⟩
  have hord : Ordinary (ascii "f") ∧ Ordinary (ascii "d") :=
    ⟨⟨⟨by decide, by decide, by decide, by decide⟩, by decide, by decide +kernel⟩,
      ⟨⟨by decide, by decide, by decide, by decide⟩, by decide, by decide +kernel⟩⟩
  -- the two entries are all there is
  have hall : ∀ n q, twoEntries.node ([] ++ n :: q) ≠ none →
      (n = ascii "f" ∨ n = ascii "d") ∧ q = [] := by
    intro n q hq
    rcases twoEntries_cases hq with h0 | h0 | h0
    · cases h0
    · cases h0
      exact ⟨.inl rfl, rfl⟩
    · cases h0
      exact ⟨.inr rfl, rfl⟩
  have hforest : Forest smallEnv twoEntriesHost.fs [] [ascii "f", ascii "d"] := by
    constructor
    case ne => decide
    case nodup => decide
    case parent => exact List.forall_mem_nil _
    case there => decide
    case names =>
      intro n _ q hq c hc
      obtain ⟨hn, rfl⟩ := hall n q hq
      rw [List.mem_singleton.mp hc]
      rcases hn with rfl | rfl
      · exact hord.1
      · exact hord.2
    case plain =>
      intro n _ q hq
      obtain ⟨hn, rfl⟩ := hall n q (by rw [show twoEntries.node _ = _ from hq]; nofun)
      rcases hn with rfl | rfl <;> revert hq <;> decide
    case depth =>
      intro n _ q hq
      obtain ⟨-, rfl⟩ := hall n q (by rw [show twoEntries.node _ = _ from hq]; nofun)
      simp
    case short =>
      intro n _ q hq
      obtain ⟨hn, rfl⟩ := hall n q hq
      rcases hn with rfl | rfl <;> decide
    case sizes =>
      intro n _ q ino d hq
      obtain ⟨hn, rfl⟩ := hall n q (by rw [show twoEntries.node _ = _ from hq]; nofun)
      rcases hn with rfl | rfl
      · cases hq
        decide
      · cases hq
    case count => decide
  obtain ⟨stream, hsent, hstored⟩ := files_round_trip hserving hforest (uriClipboard_on rfl rfl)
    (.inl rfl) (hreliable []) rfl
  have hfree : hex (Oracle.calm.time 2) ∉ [ascii "f", ascii "d"] := by decide
  exact ⟨stream, hsent,
    (hstored _ .calm .empty (.inr rfl) (hreliable stream) rfl rfl hfree).2.2⟩

end ClipShare
