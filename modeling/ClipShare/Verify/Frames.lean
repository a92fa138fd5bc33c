import ClipShare.Verify.Inside

namespace ClipShare

open Interaction Posix

/-!
# What the client of an upload sends

The bytes of an upload, read off without running the server.

* `nameOf`, `contentOf`, `frameOf`, `uploadOf` — the parts of the client's bytes;
* `readSock_reads`, `readSize_reads` — reading takes them one after the other;
* `uploadPath_eq` — the path at which a name is stored.
-/

variable {mode : Mode} {env : Env} {moves : Host → Path → Prop} {l l' : Session} {h h' : Host}

/-! ### What the client sends -/

/-- The first `n` bytes, and what follows them. -/
def field (n : Nat) (input : Bytes) : Option (Bytes × Bytes) :=
  if n ≤ input.length then some (input.take n, input.drop n) else none

theorem field_eq_some {n : Nat} {input a rest : Bytes} :
    field n input = some (a, rest) ↔ a.length = n ∧ input = a ++ rest := by
  unfold field
  constructor
  · intro h
    split at h
    · rename_i hn
      cases h
      exact ⟨List.length_take_of_le hn, (List.take_append_drop n input).symm⟩
    · cases h
  · rintro ⟨rfl, rfl⟩
    simp

/-- Two parts in a row. -/
theorem field_add {m n : Nat} {input a b rest rest' : Bytes}
    (ha : field m input = some (a, rest)) (hb : field n rest = some (b, rest')) :
    field (m + n) input = some (a ++ b, rest') := by
  rw [field_eq_some] at ha hb ⊢
  obtain ⟨rfl, rfl⟩ := ha
  obtain ⟨rfl, rfl⟩ := hb
  exact ⟨List.length_append, (List.append_assoc a b rest').symm⟩

/-- A size, and what follows it. -/
def sizeField (input : Bytes) : Option (Int × Bytes) := do
  let (buf, input) ← field 8 input
  return (sizeOfBytes buf, input)

/-- The name in a frame, and what follows it. -/
def nameOf (input : Bytes) : Option (Bytes × Bytes) := do
  let (size, input) ← sizeField input
  if size ≤ 0 ∨ size > maxFileNameLen then none
  else do
    let (name, input) ← field size.toNat input
    if isValidFname name then some (name, input) else none

/-- The entry in a frame whose size field is known, and what follows it. -/
def bodyOf (env : Env) (version : Nat) (size : Int) (input : Bytes) : Option (Entry × Bytes) :=
  if size > env.configuration.maxFileSize then none
  else if size = -1 ∧ version ≥ 3 then some (.dir, input)
  else if size < 0 then none
  else (field size.toNat input).map fun (data, input) => (.file data, input)

/-- The entry in a frame, and what follows it. -/
def contentOf (env : Env) (version : Nat) (input : Bytes) : Option (Entry × Bytes) := do
  let (size, input) ← sizeField input
  bodyOf env version size input

theorem contentOf_eq {env : Env} {version : Nat} {size : Int} {input rest : Bytes}
    (hsize : sizeField input = some (size, rest)) :
    contentOf env version input = bodyOf env version size rest := by
  simp [contentOf, hsize]

theorem contentOf_eq_none {env : Env} {version : Nat} {input : Bytes}
    (hsize : sizeField input = none) : contentOf env version input = none := by
  simp [contentOf, hsize]

section body

variable {env : Env} {version : Nat} {size : Int} {rest : Bytes}

theorem bodyOf_dir (hmax : ¬ size > env.configuration.maxFileSize)
    (hdir : size = -1 ∧ version ≥ 3) : bodyOf env version size rest = some (.dir, rest) := by
  rw [bodyOf, if_neg hmax, if_pos hdir]

theorem bodyOf_negative (hmax : ¬ size > env.configuration.maxFileSize)
    (hdir : ¬ (size = -1 ∧ version ≥ 3)) (hneg : size < 0) :
    bodyOf env version size rest = none := by
  rw [bodyOf, if_neg hmax, if_neg hdir, if_pos hneg]

theorem bodyOf_file (hmax : ¬ size > env.configuration.maxFileSize)
    (hdir : ¬ (size = -1 ∧ version ≥ 3)) (hneg : ¬ size < 0) (henough : size.toNat ≤ rest.length) :
    bodyOf env version size rest =
      some (.file (rest.take size.toNat), rest.drop size.toNat) := by
  rw [bodyOf, if_neg hmax, if_neg hdir, if_neg hneg, field, if_pos henough, Option.map_some]

theorem bodyOf_short (hmax : ¬ size > env.configuration.maxFileSize)
    (hdir : ¬ (size = -1 ∧ version ≥ 3)) (hneg : ¬ size < 0) (hshort : rest.length < size.toNat) :
    bodyOf env version size rest = none := by
  rw [bodyOf, if_neg hmax, if_neg hdir, if_neg hneg, field, if_neg (not_le.mpr hshort),
    Option.map_none]

end body

/-- The path that a name stands for: one separator at the end is dropped. -/
def pathOf (name : Bytes) : Path :=
  plain (components (cstr (if name.getLast? = some sep then name.dropLast else name)))

/-- A frame: the path and the entry, and what follows. -/
def frameOf (env : Env) (version : Nat) (input : Bytes) : Option ((Path × Entry) × Bytes) := do
  let (name, input) ← nameOf input
  let (e, input) ← contentOf env version input
  return ((pathOf name, e), input)

/-- So many frames, and what follows them. -/
def framesOf (env : Env) (version : Nat) : Nat → Bytes → Option (List (Path × Entry) × Bytes)
  | 0, input => some ([], input)
  | cnt + 1, input => do
      let (f, input) ← frameOf env version input
      let (fs, input) ← framesOf env version cnt input
      return (f :: fs, input)

/-- What an upload brings: the entries that the client announced and sent, and what follows. -/
def uploadOf (env : Env) (version : Nat) (input : Bytes) :
    Option (List (Path × Entry) × Bytes) := do
  let (cnt, input) ← sizeField input
  if cnt ≤ 0 ∨ cnt > env.configuration.maxFileCount.toNat then none
  else framesOf env version cnt.toNat input

/-- A name that is stored as it is: a path of proper names, maybe with a separator before it. -/
structure NameFor (cs : Path) (name : Bytes) : Prop where
  eq : name = joined cs ∨ name = sep :: joined cs
  parts : ∀ c ∈ cs, Proper c ∧ (0 : UInt8) ∉ c
  short : (joined cs).length ≤ 2000

/-- The client's bytes are frames for these entries, with names that are stored as they are. -/
def Carries (env : Env) (version : Nat) : List (Path × Entry) → Bytes → Bytes → Prop
  | [], input, rest => input = rest
  | (cs, e) :: fs, input, rest =>
      ∃ name, NameFor cs name ∧ ∃ input1 input2, nameOf input = some (name, input1) ∧
        contentOf env version input1 = some (e, input2) ∧ Carries env version fs input2 rest

/-- The session has read `n` bytes and nothing else has become of its connection and records. -/
structure Session.Consumed (n : Nat) (l l' : Session) : Prop where
  enough : n ≤ l.input.length
  input : l'.input = l.input.drop n
  output : l'.output = l.output
  closed : l'.closed = l.closed
  oracle : l'.oracle = l.oracle
  tmp : l'.tmp = l.tmp
  dests : l'.dests = l.dests

theorem Session.Consumed.trans {m n : Nat} {l l1 l2 : Session} (h1 : l.Consumed m l1)
    (h2 : l1.Consumed n l2) : l.Consumed (m + n) l2 where
  enough := by
    have := h2.enough
    rw [h1.input, List.length_drop] at this
    have := h1.enough
    omega
  input := by rw [h2.input, h1.input, List.drop_drop]
  output := h2.output.trans h1.output
  closed := h2.closed.trans h1.closed
  oracle := h2.oracle.trans h1.oracle
  tmp := h2.tmp.trans h1.tmp
  dests := h2.dests.trans h1.dests

/-- Reading some bytes takes them from the input; a reliable session fails only for lack of them. -/
theorem Session.readSock_consumed (l : Session) {n : Nat} (hn : 0 < n) :
    (l.Consumed n (l.readSock n).2 ∧ (l.readSock n).1 = some (l.input.take n)) ∨
      ((l.readSock n).1 = none ∧ (l.Reliable → l.input.length < n)) := by
  rcases l.readSock_cases hn with ⟨-, -, hle, hread⟩ | ⟨l', hread, -⟩
  · rw [hread]
    exact .inl ⟨⟨hle, rfl, rfl, rfl, rfl, rfl, rfl⟩, rfl⟩
  · refine .inr ⟨by rw [hread], fun hl => ?_⟩
    by_contra hle
    rw [l.readSock_ok hl.opened (hl.read _) (not_lt.mp hle)] at hread
    cases hread

/-- The session has read up to `rest` and nothing else has become of its connection and records. -/
structure Session.Took (rest : Bytes) (l l' : Session) : Prop where
  input : l'.input = rest
  output : l'.output = l.output
  closed : l'.closed = l.closed
  oracle : l'.oracle = l.oracle
  tmp : l'.tmp = l.tmp
  dests : l'.dests = l.dests

theorem Session.Consumed.took {n : Nat} (hc : l.Consumed n l') : l.Took (l.input.drop n) l' :=
  ⟨hc.input, hc.output, hc.closed, hc.oracle, hc.tmp, hc.dests⟩

theorem Session.Alike.took (ha : l.Alike l') : l.Took l.input l' :=
  ⟨ha.input, ha.output, ha.closed, ha.oracle, ha.tmp, ha.dests⟩

theorem Session.Took.trans {l1 l2 : Session} {rest rest' : Bytes} (h1 : l.Took rest l1)
    (h2 : l1.Took rest' l2) : l.Took rest' l2 :=
  ⟨h2.input, h2.output.trans h1.output, h2.closed.trans h1.closed, h2.oracle.trans h1.oracle,
    h2.tmp.trans h1.tmp, h2.dests.trans h1.dests⟩

theorem Session.Reliable.took {rest : Bytes} (hl : l.Reliable) (ht : l.Took rest l') :
    l'.Reliable :=
  hl.of_eq ht.closed ht.oracle

/-- The session has made one call on its connection or the clock, and the others have gone on. -/
structure Reads (mode : Mode) (l : Session) (h : Host) (l' : Session) (h' : Host) : Prop where
  rely : Rely mode none l h h'
  oracle : l'.oracle = l.oracle
  tmp : l'.tmp = l.tmp
  dests : l'.dests = l.dests
  held : l'.held = l.held
  calls : l'.calls = l.calls + 1

/-- `write_sock` leaves what the client sent, and succeeds on a reliable session. -/
theorem writeSock_writes (hs : l.Stands mode env h) (data : Bytes) :
    (writeSock data).Sat respond (uploading mode env moves) l h (fun a l' h' =>
      Reads mode l h l' h' ∧ l'.input = l.input ∧ l'.closed = l.closed ∧
        ∃ b, a = some b ∧ (l.Reliable → b = true)) := by
  refine sat_silent rfl hs fun h1 hr1 => ?_
  have hfields : (l.writeSock data).2.held = l.held ∧ (l.writeSock data).2.calls = l.calls + 1 ∧
      (l.writeSock data).2.input = l.input ∧ (l.writeSock data).2.closed = l.closed := by
    unfold Session.writeSock
    split_ifs
    · exact ⟨rfl, rfl, rfl, rfl⟩
    · exact ⟨rfl, rfl, rfl, rfl⟩
    · split <;> exact ⟨rfl, rfl, rfl, rfl⟩
  obtain ⟨hkept, -⟩ := respond_silent (c := .writeSock data) rfl l h1
  rw [respond_writeSock] at hkept ⊢
  refine ⟨⟨hr1.settled rfl, hkept.oracle, hkept.tmp, hkept.dests, hfields.1, hfields.2.1⟩,
    hfields.2.2.1, hfields.2.2.2, _, rfl, fun hl => ?_⟩
  show (l.writeSock data).1 = true
  rw [l.writeSock_ok hl.opened (hl.write _)]

/-- `read_sock` takes a field, and fails on a reliable session only if there is none. -/
theorem readSock_reads (hs : l.Stands mode env h) {n : Nat} (hn : 0 < n) :
    (readSock n).Sat respond (uploading mode env moves) l h (fun a l' h' =>
      Reads mode l h l' h' ∧
        ((∃ data rest, a = some (some data) ∧ field n l.input = some (data, rest) ∧
            l.Took rest l') ∨
          (a = some none ∧ (l.Reliable → field n l.input = none)))) := by
  refine sat_silent rfl hs fun h1 hr1 => ?_
  have hheld : (l.readSock n).2.held = l.held ∧ (l.readSock n).2.calls = l.calls + 1 := by
    unfold Session.readSock
    split_ifs <;> exact ⟨rfl, rfl⟩
  obtain ⟨hkept, -⟩ := respond_silent (c := .readSock n) rfl l h1
  rw [respond_readSock] at hkept ⊢
  refine ⟨⟨hr1.settled rfl, hkept.oracle, hkept.tmp, hkept.dests, hheld.1, hheld.2⟩, ?_⟩
  rcases l.readSock_consumed hn with ⟨hc, hread⟩ | ⟨hread, hfail⟩
  · exact .inl ⟨_, _, congrArg some hread, if_pos hc.enough, hc.took⟩
  · exact .inr ⟨congrArg some hread, fun hl => if_neg (not_le.mpr (hfail hl))⟩

/-- `read_size` takes a size field. -/
theorem readSize_reads (hs : l.Stands mode env h) :
    readSize.Sat respond (uploading mode env moves) l h (fun a l' h' =>
      Reads mode l h l' h' ∧
        ((∃ size rest, a = some (some size) ∧ sizeField l.input = some (size, rest) ∧
            l.Took rest l') ∨
          (a = some none ∧ (l.Reliable → sizeField l.input = none)))) := by
  refine (readSock_reads hs (by decide)).bind (fun a l1 h1 ⟨hreads, hr⟩ => ?_)
    (fun l1 h1 ⟨_, hr⟩ => by rcases hr with ⟨_, _, hr, _⟩ | ⟨hr, _⟩ <;> cases hr)
  rcases hr with ⟨data, rest, ha, hfield, ht⟩ | ⟨ha, hfail⟩
  · cases ha
    exact ⟨hreads, .inl ⟨sizeOfBytes data, rest, rfl, by simp [sizeField, hfield], ht⟩⟩
  · cases ha
    exact ⟨hreads, .inr ⟨rfl, fun hl => by simp [sizeField, hfail hl]⟩⟩

/-! ### The path of an upload -/

variable {x : Name}

/-- What follows the name of the own directory, in the path at which a name is stored. -/
theorem uploadPath_eq (hx : x.length ≤ 8) (name : Bytes) :
    ∃ u, uploadPath (hereDir ++ x) name = some (dot ++ sep :: (x ++ sep :: u)) ∧
      plain (components u) = pathOf name ∧ u.length ≤ name.length := by
  obtain ⟨v, hv⟩ : ∃ v, cstr (if name.getLast? = some sep then name.dropLast else name) = v :=
    ⟨_, rfl⟩
  have hvlen : v.length ≤ name.length := by
    rw [← hv]
    refine (cstr_length_le _).trans ?_
    split
    · simp
    · exact le_rfl
  have hfits : ∀ u : Bytes, u.length ≤ name.length →
      snprintfCheck (name.length + 20) (dot ++ sep :: (x ++ sep :: u))
        = some (dot ++ sep :: (x ++ sep :: u)) := by
    intro u hu
    refine snprintfCheck_of_lt ?_
    simp only [List.length_append, List.length_cons, dot, List.length_nil]
    omega
  have hpath : pathOf name = plain (components v) := by rw [pathOf, hv]
  unfold uploadPath
  rw [hpath, hv]
  dsimp only
  -- a separator at the start of the name is not doubled
  by_cases hhead : v.head? = some sep
  · rw [if_pos hhead]
    obtain ⟨u, rfl⟩ : ∃ u, v = sep :: u := by
      cases v with
      | nil => cases hhead
      | cons c u => exact ⟨u, by rw [Option.some.inj hhead]⟩
    have hshape : hereDir ++ x ++ sep :: u = dot ++ sep :: (x ++ sep :: u) := rfl
    have hulen : u.length ≤ name.length := by
      rw [List.length_cons] at hvlen
      omega
    refine ⟨u, by rw [hshape]; exact hfits u hulen, ?_, hulen⟩
    rw [components_cons_sep, plain_cons, if_pos (by decide)]
  · rw [if_neg hhead]
    have hshape : hereDir ++ x ++ sep :: v = dot ++ sep :: (x ++ sep :: v) := rfl
    exact ⟨v, by rw [hshape]; exact hfits v hvlen, rfl, hvlen⟩

/-- A string made of proper names: its components, what it begins and ends with, and that it has no
    NUL. -/
theorem joined_proper {cs : List Name} (hne : cs ≠ [])
    (hcs : ∀ c ∈ cs, Proper c ∧ (0 : UInt8) ∉ c) :
    components (joined cs) = cs ∧ (joined cs).head? ≠ some sep ∧ (joined cs).getLast? ≠ some sep ∧
      (0 : UInt8) ∉ joined cs := by
  have hcomp : components (joined cs) = cs :=
    components_joined (fun c hc => (hcs c hc).1.sep) hne
  obtain ⟨k, ks, rfl⟩ := List.exists_cons_of_ne_nil hne
  refine ⟨hcomp, ?_, ?_, ?_⟩
  · have hk := (hcs k List.mem_cons_self).1
    obtain ⟨b, k', rfl⟩ := List.exists_cons_of_ne_nil hk.ne
    have hb : b ≠ sep := fun h0 => hk.sep (by simp [h0])
    cases ks with
    | nil => simpa using hb
    | cons c ks => rw [joined_cons_cons]; simpa using hb
  · intro hlast
    obtain ⟨u, hu⟩ : ∃ u, joined (k :: ks) = u ++ [sep] :=
      ⟨_, (List.dropLast_append_getLast? _ hlast).symm⟩
    have hnil : ([] : Name) ∈ k :: ks := by
      rw [← hcomp, hu, components_append_sep]
      simp [components_of_not_mem]
    exact (hcs _ hnil).1.ne rfl
  · clear hne hcomp
    induction ks generalizing k with
    | nil =>
      rw [joined_singleton]
      exact (hcs k List.mem_cons_self).2
    | cons c ks ih =>
      rw [joined_cons_cons, List.mem_append, List.mem_cons, not_or, not_or]
      exact ⟨(hcs k List.mem_cons_self).2, by decide,
        ih c fun d hd => hcs d (List.mem_cons_of_mem _ hd)⟩

/-- A path made of proper names is stored as it is. -/
theorem uploadPath_joined (hx : x.length ≤ 8) {cs : List Name} (hne : cs ≠ []) {name : Bytes}
    (hname : NameFor cs name) :
    uploadPath (hereDir ++ x) name = some (dot ++ sep :: (x ++ sep :: joined cs)) ∧
      pathOf name = cs := by
  obtain ⟨hcomp, hhead, hlast, hzero⟩ := joined_proper hne hname.parts
  have hplain : plain cs = cs := plain_of_proper fun c hc => (hname.parts c hc).1
  have hjne : joined cs ≠ [] := by
    intro h0
    rw [h0, components_of_not_mem (by simp)] at hcomp
    exact (hname.parts [] (by rw [← hcomp]; exact List.mem_singleton_self _)).1.ne rfl
  have hcstr : cstr (joined cs) = joined cs := cstr_of_not_mem hzero
  have hshape : ∀ s : Bytes, hereDir ++ x ++ sep :: s = dot ++ sep :: (x ++ sep :: s) :=
    fun _ => rfl
  have hfits : ∀ n : Nat, (joined cs).length ≤ n →
      snprintfCheck (n + 20) (dot ++ sep :: (x ++ sep :: joined cs))
        = some (dot ++ sep :: (x ++ sep :: joined cs)) := by
    intro n hn
    refine snprintfCheck_of_lt ?_
    simp only [List.length_append, List.length_cons, dot, List.length_nil]
    omega
  -- the name may begin with a separator, which is not doubled
  rcases hname.eq with rfl | rfl
  · constructor
    · unfold uploadPath
      rw [if_neg hlast, hcstr]
      dsimp only
      rw [if_neg hhead, hshape]
      exact hfits _ (le_refl _)
    · rw [pathOf, if_neg hlast, hcstr, hcomp, hplain]
  · have hlast' : (sep :: joined cs).getLast? ≠ some sep := by
      rw [List.getLast?_cons_of_ne_nil hjne]
      exact hlast
    have hcstr' : cstr (sep :: joined cs) = sep :: joined cs := by
      apply cstr_of_not_mem
      rw [List.mem_cons, not_or]
      exact ⟨by decide, hzero⟩
    constructor
    · unfold uploadPath
      rw [if_neg hlast', hcstr']
      dsimp only
      rw [if_pos List.head?_cons, hshape]
      exact hfits _ (by rw [List.length_cons]; omega)
    · have hsep : stays [] = true := rfl
      rw [pathOf, if_neg hlast', hcstr', components_cons_sep, plain_cons, if_pos hsep, hcomp,
        hplain]

/-- Bytes that carry entries are decoded to these entries. -/
theorem Carries.framesOf {version : Nat} {fs : List (Path × Entry)} {input rest : Bytes}
    (hc : Carries env version fs input rest) (hne : ∀ f ∈ fs, f.1 ≠ []) :
    framesOf env version fs.length input = some (fs, rest) := by
  induction fs generalizing input with
  | nil => exact congrArg (fun i => some ([], i)) hc
  | cons f fs ih =>
    obtain ⟨cs, e⟩ := f
    obtain ⟨name, hfor, input1, input2, hname, hcontent, hc⟩ := hc
    have hpath : pathOf name = cs :=
      (uploadPath_joined (x := []) (Nat.zero_le 8) (hne _ List.mem_cons_self) hfor).2
    have hrest := ih hc fun f hf => hne f (List.mem_cons_of_mem _ hf)
    simp [ClipShare.framesOf, frameOf, hname, hcontent, hpath, hrest]

end ClipShare
