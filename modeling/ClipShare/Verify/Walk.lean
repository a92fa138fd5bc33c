import ClipShare.Verify.Inside

namespace ClipShare

open Interaction Posix Prog

/-!
# Walking through directories

The functions that collect the paths of copied files read the file tree and do not change it.

* `Reading` — the states of a session that only reads;
* `stat_yields`, `readDir_yields`, `error_yields` — what the calls of the walk answer;
* `recurseDir_under` — all paths that `_recurse_dir` lists begin with the path of the directory;
* `copiedPath_from` — what a copied path contributes.
-/

/-- The states of a session that only reads: the host is `h`, and `A` holds of the oracle. -/
def Reading (A : Oracle → Prop) (h : Host) (s : Session × Host) : Prop := A s.1.oracle ∧ s.2 = h

/-- The path of a directory, with a separator at its end. -/
def withSep (dirPath : Bytes) : Bytes :=
  if dirPath.getLast? = some sep then dirPath else dirPath ++ [sep]

variable {A : Oracle → Prop} {h : Host}

/-- The calls of the walk leave the host as it is. -/
theorem Reading.next {s : Session × Host} (hs : Reading A h s) {c : Call}
    (hc : ∀ l : Session, (execute c (l, h)).2.2 = h) : Reading A h (respond c s).2 := by
  refine ⟨?_, ?_⟩
  · rw [respond_oracle]
    exact hs.1
  · obtain ⟨l, h'⟩ := s
    have hh : h' = h := hs.2
    subst hh
    simp only [respond]
    split
    · rfl
    · exact hc l

theorem stat_yields (path : Bytes) :
    (stat path).Yields respond (Reading A h) fun kind => kind = statAt h path := by
  apply yields_ask
  rintro ⟨l, h'⟩ hs
  refine ⟨hs.next fun _ => rfl, ?_⟩
  rw [respond_stat, show h' = h from hs.2]
  rfl

theorem error_yields (msg : Bytes) :
    (error msg).Yields respond (Reading A h) fun _ => True :=
  yields_ask fun _ hs => ⟨hs.next fun _ => rfl, trivial⟩

/-- A directory that can be listed is listed in some order. -/
theorem readDir_yields (path : Bytes) :
    (readDir path).Yields respond (Reading A h) fun names =>
      ∀ ns, names = some ns → ∃ entries, readDirOf h path = some entries ∧ ns.Perm entries := by
  apply yields_ask
  rintro ⟨l, h'⟩ hs
  refine ⟨hs.next fun _ => rfl, ?_⟩
  have hh : h' = h := hs.2
  subst hh
  intro ns hns
  have hns : (respond (.readDir path) (l, h')).1 = some ns := hns
  cases hf : l.fault with
  | true =>
    rw [respond_of_fault hf (c := .readDir path) rfl] at hns
    cases hns
  | false =>
    rw [respond_of_fault_none hf] at hns
    obtain ⟨entries, hentries, rfl⟩ := Option.map_eq_some_iff.mp hns
    exact ⟨entries, hentries, l.oracle.order_perm ..⟩

/-- Where nothing fails, a directory is listed. -/
theorem readDir_sturdy (hA : ∀ o, A o → ∀ k, o.fs k = false) {path : Bytes} {entries : List Name}
    (hentries : readDirOf h path = some entries) :
    (readDir path).Yields respond (Reading A h) fun names =>
      ∃ ns, names = some ns ∧ ns.Perm entries := by
  apply yields_ask
  rintro ⟨l, h'⟩ hs
  refine ⟨hs.next fun _ => rfl, ?_⟩
  have hh : h' = h := hs.2
  subst hh
  have hf : l.fault = false := hA _ hs.1 l.calls
  refine ⟨l.oracle.order l.calls entries, ?_, l.oracle.order_perm ..⟩
  rw [respond_of_fault_none hf]
  show (readDirOf h' path).map (l.oracle.order l.calls) = _
  rw [hentries]
  rfl

/-- Asking for a target of the clipboard. -/
theorem xclipOut_yields (target : Option Bytes) :
    (xclipOut target).Yields respond (Reading A h) fun _ => True := by
  have hask : (xclipUtilOut target).Yields respond (Reading A h) fun _ => True :=
    yields_ask fun _ hs => ⟨hs.next fun _ => rfl, trivial⟩
  apply hask.bind
  intro o _
  cases o with
  | none => exact yields_ret trivial
  | some buf =>
    dsimp only
    split <;> exact yields_ret trivial

theorem xclipTargets_yields : xclipTargets.Yields respond (Reading A h) fun _ => True := by
  have hask : xclipUtilTargets.Yields respond (Reading A h) fun _ => True :=
    yields_ask fun _ hs => ⟨hs.next fun _ => rfl, trivial⟩
  apply hask.bind
  rintro (_ | ⟨targets, behind⟩) _
  · exact yields_ret trivial
  · dsimp only
    split <;> exact yields_ret trivial

theorem getCopiedFilesAsStr_yields :
    getCopiedFilesAsStr.Yields respond (Reading A h) fun _ => True := by
  apply xclipTargets_yields.bind
  rintro (_ | ⟨targets, behind⟩) _
  · exact yields_ret trivial
  · dsimp only
    split
    · exact yields_ret trivial
    · apply (xclipOut_yields _).bind
      intro fnames _
      cases fnames with
      | none => exact yields_ret trivial
      | some fnames =>
        dsimp only
        split
        · exact yields_ret trivial
        · exact yields_ret trivial
        · split <;> exact yields_ret trivial

/-- What `xclip_util` delivers when the clipboard has something. -/
theorem xclipOut_run {l : Session} (hl : l.fault = false) {target : Option Bytes} {buf : Bytes}
    (hbuf : h.desktop.clipboard target = some buf) (hne : buf ≠ []) :
    (xclipOut target).run respond (l, h) = (some (some buf), l.tick, h) := by
  have hans : respond (.xclipOut target) (l, h) = (h.desktop.read target, l.tick, h) := by
    rw [respond_of_fault_none hl]
    rfl
  unfold xclipOut xclipUtilOut
  rw [ask_bind, run_call, hans]
  simp [Desktop.read, hbuf, hne]

/-- What it delivers for the list of targets. -/
theorem xclipTargets_run {l : Session} (hl : l.fault = false) {targets : Bytes}
    (htargets : h.desktop.clipboard (some targetsName) = some targets) (hne : targets ≠ []) :
    xclipTargets.run respond (l, h) = (some (some (targets, h.desktop.behind)), l.tick, h) := by
  have hans : respond (.xclipOut (some targetsName)) (l, h)
      = (h.desktop.read (some targetsName), l.tick, h) := by
    rw [respond_of_fault_none hl]
    rfl
  unfold xclipTargets xclipUtilTargets
  rw [ask_bind, run_call, hans]
  simp [Desktop.read, htargets, hne]

/-- The lines of a list of URIs that comes after the line `copy` or `cut`. -/
theorem lines_action {action uris : Bytes} (haction : action = ascii "copy" ∨ action = ascii "cut")
    (hnul : (0 : UInt8) ∉ uris) : lines (action ++ 0x0a :: uris) = action :: uris.splitOn 0x0a := by
  have hbytes : (0 : UInt8) ∉ action ∧ (0x0a : UInt8) ∉ action := by
    rcases haction with rfl | rfl <;> decide
  have hcstr : cstr (action ++ 0x0a :: uris) = action ++ 0x0a :: uris := by
    apply cstr_of_not_mem
    rw [List.mem_append, List.mem_cons, not_or, not_or]
    exact ⟨hbytes.1, by decide, hnul⟩
  unfold lines
  rw [hcstr, List.splitOn_append_cons_self, List.splitOn_eq_singleton hbytes.2]
  rfl

/-- The clipboard offers files, and delivers this list of URIs when it is asked for them. -/
structure OnClipboard (uris : Bytes) (h : Host) : Prop where
  targets : ∃ targets, h.desktop.clipboard (some targetsName) = some targets ∧ targets ≠ [] ∧
    gnomeCopiedFiles ∈ lines (targets ++ h.desktop.behind)
  uris : ∃ action, (action = ascii "copy" ∨ action = ascii "cut") ∧
    h.desktop.clipboard (some gnomeCopiedFiles) = some (action ++ 0x0a :: uris)

/-- The clipboard with this list of URIs. -/
def uriClipboard (uris : Bytes) (target : Option Bytes) : Option Bytes :=
  if target = some targetsName then some (gnomeCopiedFiles ++ [0x0a])
  else if target = some gnomeCopiedFiles then some (ascii "copy\n" ++ uris)
  else none

theorem uriClipboard_on {uris : Bytes} (hclip : h.desktop.clipboard = uriClipboard uris)
    (hbehind : h.desktop.behind = []) : OnClipboard uris h := by
  have hmem : gnomeCopiedFiles ∈ lines (gnomeCopiedFiles ++ [0x0a] ++ []) := by decide
  refine ⟨⟨_, congrFun hclip _, by decide, by rwa [hbehind]⟩, ascii "copy", .inl rfl, ?_⟩
  rw [hclip]
  rfl

/-- The copied files, when the clipboard offers them and delivers their URIs. -/
theorem getCopiedFilesAsStr_run {l : Session} (hl : l.Sturdy) {uris : Bytes}
    (hclip : OnClipboard uris h) (hnul : (0 : UInt8) ∉ uris) :
    getCopiedFilesAsStr.run respond (l, h) = (some (some uris), l.tick.tick, h) := by
  obtain ⟨targets, htargets, hne, hmem⟩ := hclip.targets
  obtain ⟨action, haction, huris⟩ := hclip.uris
  have hfirst := xclipTargets_run (hl l.calls) htargets hne
  have hsecond := xclipOut_run (l := l.tick) (hl l.tick.calls) huris (by simp)
  obtain ⟨line, rest, hrest⟩ := List.exists_cons_of_ne_nil (List.splitOn_ne_nil 0x0a uris)
  have hjoin : List.intercalate [0x0a] (line :: rest) = uris := by
    rw [← hrest]
    exact List.intercalate_splitOn 0x0a
  unfold getCopiedFilesAsStr
  rw [run_bind_of_some respond hfirst]
  dsimp only
  rw [if_neg (not_not_intro hmem), run_bind_of_some respond hsecond]
  dsimp only
  rw [lines_action haction hnul, hrest]
  dsimp only
  rw [if_neg fun hno => haction.elim hno.1 hno.2, hjoin]
  rfl

/-! ### Where the paths lie -/

theorem self_prefix_withSep (path : Bytes) : path <+: withSep path := by
  unfold withSep
  split
  · exact List.prefix_rfl
  · exact List.prefix_append ..

/-- What the entries of a directory contribute lies below its path. -/
theorem recurseEntries_under {process : Bytes → Proc (List Bytes)} {path : Bytes}
    (hp : ∀ p, (process p).Yields respond (Reading A h) fun lst => ∀ x ∈ lst, p <+: x)
    (names : List Name) :
    (recurseEntries process path names).Yields respond (Reading A h) fun r =>
      ∀ x ∈ r.1, path <+: x := by
  induction names with
  | nil => exact yields_ret (List.forall_mem_nil _)
  | cons filename names ih =>
    unfold recurseEntries
    split
    · apply (error_yields _).bind
      intro _ _
      exact yields_ret (List.forall_mem_nil _)
    · apply (hp _).bind
      intro lst hlst
      apply ih.bind
      intro r hr
      refine yields_ret fun x hx => ?_
      rcases List.mem_append.mp hx with hx | hx
      · exact (List.prefix_append ..).trans (hlst x hx)
      · exact hr x hx

theorem processPath_under {recurse : Bytes → Proc (List Bytes)}
    (hr : ∀ p, (recurse p).Yields respond (Reading A h) fun lst => ∀ x ∈ lst, withSep p <+: x)
    (path : Bytes) :
    (processPath recurse path).Yields respond (Reading A h) fun lst => ∀ x ∈ lst, path <+: x := by
  apply (stat_yields path).bind
  intro kind _
  split
  · exact (hr path).mono fun lst hlst x hx => (self_prefix_withSep path).trans (hlst x hx)
  · exact yields_ret fun x hx => (List.mem_singleton.mp hx) ▸ List.prefix_rfl
  · exact yields_ret (List.forall_mem_nil _)

/-- All paths that are listed begin with the path of the directory. -/
theorem recurseDir_under (leaf : Bool) (depth : Nat) (dirPath : Bytes) :
    (recurseDir leaf depth dirPath).Yields respond (Reading A h) fun lst =>
      ∀ x ∈ lst, withSep dirPath <+: x := by
  induction depth generalizing dirPath with
  | zero => exact yields_ret (List.forall_mem_nil _)
  | succ depth ih =>
    apply (readDir_yields dirPath).bind
    intro names _
    cases names with
    | none => exact yields_ret (List.forall_mem_nil _)
    | some names =>
      dsimp only
      split
      · apply (error_yields _).bind
        intro _ _
        exact yields_ret (List.forall_mem_nil _)
      · apply (recurseEntries_under (processPath_under ih) names).bind
        intro r hr
        split
        · refine yields_ret fun x hx => ?_
          rcases List.mem_append.mp hx with hx | hx
          · exact hr x hx
          · exact (List.mem_singleton.mp hx) ▸ List.prefix_rfl
        · exact yields_ret hr

/-- A path that a copied path contributes: it is the path of a regular file, or it begins with the
    path of a directory. -/
def From (h : Host) (fname x : Bytes) : Prop :=
  (statAt h fname = some .regular ∧ x = fname) ∨
    (statAt h fname = some .dir ∧ withSep fname <+: x)

theorem copiedPath_from (leaf : Bool) (fname : Bytes) :
    (copiedPath leaf fname).Yields respond (Reading A h) fun lst => ∀ x ∈ lst, From h fname x := by
  apply (stat_yields fname).bind
  intro kind hkind
  subst hkind
  split
  · rename_i hdir
    exact (recurseDir_under leaf _ fname).mono fun lst hlst x hx => .inr ⟨hdir, hlst x hx⟩
  · rename_i hfile
    exact yields_ret fun x hx => .inl ⟨hfile, List.mem_singleton.mp hx⟩
  · exact yields_ret (List.forall_mem_nil _)

/-- An empty directory contributes its own path, if empty directories count. -/
theorem recurseDir_empty (hA : ∀ o, A o → ∀ k, o.fs k = false) {dirPath : Bytes}
    (hempty : readDirOf h dirPath = some []) (hlen : dirPath.length ≤ maxFileNameLen)
    (depth : Nat) :
    (recurseDir true (depth + 1) dirPath).Yields respond (Reading A h)
      (· = [withSep dirPath]) := by
  apply (readDir_sturdy hA hempty).bind
  rintro _ ⟨ns, rfl, hperm⟩
  rw [hperm.eq_nil]
  dsimp only
  rw [if_neg (by omega)]
  exact yields_ret rfl

end ClipShare
