import ClipShare.Server.Utils

namespace ClipShare

open Interaction Posix

/-!
# Targets of the clipboard

`get_copied_type`, `get_copied_files_as_str` and `get_image` each look for targets in their own way:
the first finds files by the beginning of a name and images under two names, the other two ask
for one name each.

* `requested` — the targets that a run asks the clipboard for;
* `getCopiedType_run` — the type that is reported, read off the list of the targets;
* `requested_files` / `requested_image` — what the other two ask for;
* `copiedType_fetched_iff` — what is reported can be fetched if and only if the names agree.
-/

/-- The targets that the calls of a run ask the clipboard for. -/
def requested (t : List (Event Calls)) : List (Option Bytes) :=
  t.filterMap fun e => match e.1 with
    | .xclipOut target => some target
    | _ => none

@[simp] theorem requested_append (t u : List (Event Calls)) :
    requested (t ++ u) = requested t ++ requested u := List.filterMap_append

/-- `xclip_util` is called once, for its target. -/
theorem requested_xclipOut (target : Option Bytes) (s : Session × Host) :
    requested ((xclipOut target).trace respond s) = [target] := by
  unfold xclipOut xclipUtilOut
  rw [Prog.ask_bind, Prog.trace_call]
  cases (respond (.xclipOut target) s).1 with
  | none => rfl
  | some r => by_cases hbuf : r.1 = [] <;> simp [hbuf, requested]

theorem requested_xclipTargets (s : Session × Host) :
    requested (xclipTargets.trace respond s) = [some targetsName] := by
  unfold xclipTargets xclipUtilTargets
  rw [Prog.ask_bind, Prog.trace_call]
  cases (respond (.xclipOut (some targetsName)) s).1 with
  | none => rfl
  | some r => by_cases hbuf : r.1 = [] <;> simp [hbuf, requested]

/-- The clipboard offers targets with these names, and the list of them can be read. -/
def Offers (names : List Bytes) (l : Session) (h : Host) : Prop :=
  l.Sturdy ∧ h.desktop.read (some targetsName) = some (targetsText names)

/-- What `xclip_util` delivers for the list, when it has to deliver something. -/
def listed (names : List Bytes) : Option (Bytes × Bytes) :=
  if (targetsText names).1 = [] then none else some (targetsText names)

/-- The names as the searches for files see them. -/
def tokens (names : List Bytes) : List Bytes :=
  match listed names with
  | none => []
  | some (targets, behind) => lines (targets ++ behind)

/-- The names as the other searches see them: the ones that are complete. -/
def completeTokens (names : List Bytes) : List Bytes := lines (targetsText names).1.dropLast

variable {names : List Bytes} {l : Session} {h : Host}

theorem Offers.run_xclipTargets (ho : Offers names l h) :
    xclipTargets.run respond (l, h) = (some (listed names), l.tick, h) := by
  have hans : respond (.xclipOut (some targetsName)) (l, h)
      = (some (targetsText names), l.tick, h) := by
    rw [respond_of_fault_none (ho.1 l.calls)]
    show (h.desktop.read (some targetsName), l.tick, h) = _
    rw [ho.2]
  unfold xclipTargets xclipUtilTargets
  rw [Prog.ask_bind, Prog.run_call, hans]
  unfold listed
  by_cases hempty : (targetsText names).1 = []
  · simp [hempty]
  · simp [hempty]

/-! ### The list -/

/-- The names of the targets, each with a newline. -/
def targetLines (names : List Bytes) : Bytes := names.flatMap (· ++ [0x0a])

theorem targetLines_append (ns ns' : List Bytes) :
    targetLines (ns ++ ns') = targetLines ns ++ targetLines ns' := List.flatMap_append

/-- A step of the loop: the buffer grows by one byte too few for a name that does not fit. -/
theorem listTargets_cons {name : Bytes} (hname : (cstr name).length ≤ 510) (names : List Bytes)
    (out left : Bytes) (capacity : Nat) : listTargets (name :: names) out left capacity =
      if (cstr name).length + out.length + 1 < capacity then
        listTargets names (out ++ (cstr name ++ [0x0a])) [] capacity
      else listTargets names out (cstr name) ((cstr name).length + out.length + 1) := by
  obtain ⟨s, hs⟩ : ∃ s, cstr name = s := ⟨_, rfl⟩
  rw [hs] at hname ⊢
  have hlen : min s.length 511 = s.length := by omega
  have hline : (s ++ [0x0a]).length = s.length + 1 := List.length_append
  conv_lhs => unfold listTargets
  rw [hs]
  dsimp only
  rw [hlen, hline]
  by_cases hfits : s.length + out.length + 1 < capacity
  · have hroom : s.length + 1 < capacity - out.length := by omega
    rw [if_pos hfits, if_neg (not_le.mpr hfits), if_pos hroom,
      List.take_of_length_le (by rw [hline]), List.drop_of_length_le (by rw [hline])]
  · have hfull : ¬ s.length + 1 < s.length + out.length + 1 - out.length := by omega
    have hleft : s.length + out.length + 1 - out.length - 1 = s.length := by omega
    rw [if_neg hfits, if_pos (not_lt.mp hfits), if_neg hfull, hleft, List.take_left]

/-- A longer name never fits. -/
theorem listTargets_cons_long {name : Bytes} (hname : 510 < (cstr name).length)
    (names : List Bytes) (out left : Bytes) {capacity : Nat} (hcap : capacity ≤ out.length + 512) :
    ∃ left' capacity', listTargets (name :: names) out left capacity
      = listTargets names out left' capacity' ∧ capacity' ≤ out.length + 512 := by
  have hline : (cstr name ++ [0x0a]).length = (cstr name).length + 1 := List.length_append
  conv =>
    enter [1, left', 1, capacity', 1, 1]
    unfold listTargets
  dsimp only
  by_cases hgrow : min (cstr name).length 511 + out.length + 1 ≥ capacity
  · rw [if_pos hgrow, if_neg (by rw [hline]; omega)]
    exact ⟨_, _, rfl, by omega⟩
  · rw [if_neg hgrow, if_neg (by rw [hline]; omega)]
    exact ⟨_, _, rfl, hcap⟩

/-- **The counted bytes** are complete names, each with its newline. -/
theorem listTargets_complete (names : List Bytes) {kept : List Bytes} {left : Bytes}
    {capacity : Nat} (hcap : capacity ≤ (targetLines kept).length + 512)
    (hkept : ∀ n ∈ kept, (0 : UInt8) ∉ n) :
    ∃ kept', (listTargets names (targetLines kept) left capacity).1 = targetLines kept' ∧
      ∀ n ∈ kept', (0 : UInt8) ∉ n := by
  induction names generalizing kept left capacity with
  | nil => exact ⟨kept, rfl, hkept⟩
  | cons name names ih =>
    by_cases hlong : 510 < (cstr name).length
    · obtain ⟨left', capacity', heq, hcap'⟩ := listTargets_cons_long hlong names _ left hcap
      rw [heq]
      exact ih hcap' hkept
    · rw [listTargets_cons (not_lt.mp hlong)]
      split
      · have hmore :
            targetLines kept ++ (cstr name ++ [0x0a]) = targetLines (kept ++ [cstr name]) := by
          rw [targetLines_append]
          simp [targetLines]
        rw [hmore]
        refine ih ?_ fun n hn => ?_
        · rw [targetLines_append, List.length_append]
          omega
        · rcases List.mem_append.mp hn with hn | hn
          · exact hkept n hn
          · rw [List.mem_singleton.mp hn]
            exact zero_not_mem_cstr name
      · exact ih (by omega) hkept

/-! ### What is reported -/

/-- A name that `get_copied_type` takes for copied files. -/
def LikeFiles (name : Bytes) : Prop := gnomeCopiedFiles <+: name

/-- A name that `get_copied_type` takes for an image. -/
def LikeImage (name : Bytes) : Prop := name = ascii "image/png" ∨ name = ascii "image/jpeg"

/-- What a search leaves of the string of targets: the complete names. -/
theorem restoreLines_targets (hne : (targetsText names).1 ≠ []) :
    restoreLines (targetsText names).1.length
        (cstr ((targetsText names).1 ++ (targetsText names).2)) = (targetsText names).1.dropLast ∧
      (0 : UInt8) ∉ (targetsText names).1.dropLast := by
  obtain ⟨kept, hkept, hnul⟩ := @listTargets_complete names [] [] 128 (by decide) (by simp)
  have hout : (targetsText names).1 = targetLines kept := hkept
  -- the last complete name ends in a newline
  obtain ⟨front, name, rfl⟩ : ∃ front name, kept = front ++ [name] := by
    have hsome : kept ≠ [] := fun e => hne (by rw [hout, e]; rfl)
    exact ⟨_, _, (List.dropLast_append_getLast hsome).symm⟩
  have hlast : targetLines (front ++ [name]) = (targetLines front ++ name) ++ [0x0a] := by
    rw [targetLines_append]
    simp [targetLines]
  have hfree : (0 : UInt8) ∉ targetLines front ++ name := by
    intro hmem
    rcases List.mem_append.mp hmem with hmem | hmem
    · obtain ⟨n, hn, hmem⟩ := List.mem_flatMap.mp hmem
      rcases List.mem_append.mp hmem with hmem | hmem
      · exact hnul n (List.mem_append_left _ hn) hmem
      · exact absurd hmem (by decide)
    · exact hnul name (List.mem_append_right _ (List.mem_singleton_self _)) hmem
  rw [hout, hlast, List.dropLast_concat]
  refine ⟨?_, hfree⟩
  obtain ⟨line, hline⟩ : ∃ line, targetLines front ++ name = line := ⟨_, rfl⟩
  rw [hline] at hfree ⊢
  rw [List.append_assoc, cstr_append hfree, List.length_append, List.length_singleton]
  unfold restoreLines
  rw [Nat.add_sub_cancel, List.take_left' rfl, List.drop_left' rfl]
  exact List.append_nil _

/-- Files are reported if and only if some name looks like them; an image, if and only if no name
    does and one of the complete names is an image. -/
theorem getCopiedType_run (ho : Offers names l h) :
    ((getCopiedType.run respond (l, h)).1 = some .file ↔ ∃ t ∈ tokens names, LikeFiles t) ∧
    ((getCopiedType.run respond (l, h)).1 = some .image ↔
      (¬ ∃ t ∈ tokens names, LikeFiles t) ∧ ∃ t ∈ completeTokens names, LikeImage t) := by
  have hrun : (getCopiedType.run respond (l, h)).1 = _ :=
    congrArg Prod.fst (Prog.run_bind_of_some respond ho.run_xclipTargets)
  rw [hrun]
  by_cases hempty : (targetsText names).1 = []
  · have hlisted : listed names = none := if_pos hempty
    have hnone : tokens names = [] := by simp [tokens, hlisted]
    have hcomplete : completeTokens names = [[]] := by
      unfold completeTokens
      rw [hempty]
      rfl
    have hno : ¬ LikeImage [] := by unfold LikeImage; decide
    rw [hlisted, hnone, hcomplete]
    simp [hno]
  · have hlisted : listed names = some (targetsText names) := if_neg hempty
    have htokens :
        lines (cstr ((targetsText names).1 ++ (targetsText names).2)) = tokens names := by
      unfold tokens lines
      rw [hlisted, cstr_cstr]
    have hcomplete : lines (targetsText names).1.dropLast = completeTokens names := rfl
    have hfiles : ((tokens names).any fun t => gnomeCopiedFiles.isPrefixOf t) = true
        ↔ ∃ t ∈ tokens names, LikeFiles t := by
      rw [List.any_eq_true]
      simp only [List.isPrefixOf_iff_prefix, LikeFiles]
    have himage : ((completeTokens names).any fun t =>
        t == ascii "image/png" || t == ascii "image/jpeg") = true
        ↔ ∃ t ∈ completeTokens names, LikeImage t := by
      rw [List.any_eq_true]
      simp only [Bool.or_eq_true, beq_iff_eq, LikeImage]
    rw [hlisted, ← hfiles, ← himage]
    have htype : ∀ t : CopiedType, (Prog.ret t : Proc CopiedType).run respond (l.tick, h)
      = (some t, l.tick, h) := fun t => rfl
    dsimp only
    rw [Prog.pure_eq, htype]
    dsimp only
    unfold typeOfTargets
    dsimp only
    rw [htokens, (restoreLines_targets hempty).1, hcomplete]
    split_ifs <;> simp_all

/-! ### What is asked for -/

/-- `get_copied_files_as_str` asks for the files if and only if their exact name is there. -/
theorem requested_files (ho : Offers names l h) :
    some gnomeCopiedFiles ∈ requested (getCopiedFilesAsStr.trace respond (l, h))
      ↔ gnomeCopiedFiles ∈ tokens names := by
  have htrace : getCopiedFilesAsStr.trace respond (l, h) = _ := Prog.trace_bind respond _ _ _
  rw [htrace, requested_append, requested_xclipTargets, ho.run_xclipTargets, List.mem_append]
  have hfirst : some gnomeCopiedFiles ∉ [some targetsName] := by decide
  rw [or_iff_right hfirst]
  by_cases hempty : (targetsText names).1 = []
  · have hlisted : listed names = none := if_pos hempty
    have hnone : tokens names = [] := by simp [tokens, hlisted]
    rw [hlisted, hnone]
    exact iff_of_false (List.not_mem_nil (a := some gnomeCopiedFiles)) (List.not_mem_nil)
  · have hlisted : listed names = some (targetsText names) := if_neg hempty
    have htokens : lines ((targetsText names).1 ++ (targetsText names).2) = tokens names := by
      unfold tokens
      rw [hlisted]
    rw [hlisted]
    dsimp only
    rw [htokens]
    by_cases hmem : gnomeCopiedFiles ∈ tokens names
    · rw [if_neg (not_not.mpr hmem), Prog.trace_bind, requested_append, requested_xclipOut]
      exact iff_of_true (List.mem_append_left _ (List.mem_singleton_self _)) hmem
    · rw [if_pos hmem]
      exact iff_of_false (List.not_mem_nil (a := some gnomeCopiedFiles)) hmem

/-- In the mode for copied images `get_image` asks for one target. -/
theorem requested_image (env : Env) (disp : UInt16) (l : Session) (h : Host) :
    requested ((getImage env .copiedOnly disp).trace respond (l, h))
      = [some (ascii "image/png")] := by
  unfold getImage xclipUtilOut
  rw [if_neg (by decide), Prog.ask_bind, Prog.trace_call]
  dsimp only
  cases properImage (Option.map Prod.fst
      (respond (.xclipOut (some (ascii "image/png"))) (l, h)).1) with
  | none =>
    rw [if_pos rfl]
    rfl
  | some buf => rfl

/-- The names agree: a name that looks like files stands beside their exact name, and where no name
    does, an image stands beside `image/png`. -/
def NamesAgree (names : List Bytes) : Prop :=
  ((∃ t ∈ tokens names, LikeFiles t) → gnomeCopiedFiles ∈ tokens names) ∧
  ((¬ ∃ t ∈ tokens names, LikeFiles t) → (∃ t ∈ completeTokens names, LikeImage t) →
    ascii "image/png" ∈ names)

/-- **What is reported can be fetched.**  For every list of names that the clipboard offers: when
    files are reported, `get_copied_files_as_str` finds their target in the list, and when an
    image is reported, every target that `get_image` asks for is offered; both if and only if the
    names agree. -/
theorem copiedType_fetched_iff (env : Env) (disp : UInt16) (ho : Offers names l h) :
    (((getCopiedType.run respond (l, h)).1 = some .file →
        some gnomeCopiedFiles ∈ requested (getCopiedFilesAsStr.trace respond (l, h))) ∧
      ((getCopiedType.run respond (l, h)).1 = some .image →
        ∀ target, some target ∈ requested ((getImage env .copiedOnly disp).trace respond (l, h)) →
          target ∈ names))
      ↔ NamesAgree names := by
  obtain ⟨hfile, himage⟩ := getCopiedType_run ho
  rw [hfile, himage, requested_files ho, requested_image]
  unfold NamesAgree
  refine and_congr_right fun _ => ?_
  constructor
  · exact fun hfetch hno himg => hfetch ⟨hno, himg⟩ _ (List.mem_singleton_self _)
  · rintro hagree ⟨hno, himg⟩ target htarget
    have heq := Option.some.inj (List.mem_singleton.mp htarget)
    rw [heq]
    exact hagree hno himg

/-- A host whose clipboard offers targets with these names. -/
def offering (names : List Bytes) : Host :=
  { Host.empty with desktop := { Desktop.empty with
      clipboard := fun target =>
        if target = some targetsName then some (targetsText names).1 else none
      behind := (targetsText names).2 } }

theorem offering_offers (names : List Bytes) : Offers names (.fresh [] .calm) (offering names) := by
  refine ⟨fun _ => rfl, ?_⟩
  show Option.map _
    (if some targetsName = some targetsName then some (targetsText names).1 else none) = _
  rw [if_pos rfl]
  rfl

/-- A copied PNG image is reported and can be fetched. -/
theorem copiedType_fetched_png :
    (getCopiedType.run respond (.fresh [] .calm, offering [ascii "TARGETS", ascii "image/png"])).1
        = some .image ∧
      ∀ target, some target ∈ requested ((getImage .default .copiedOnly 0).trace respond
          (.fresh [] .calm, offering [ascii "TARGETS", ascii "image/png"])) →
        target ∈ [ascii "TARGETS", ascii "image/png"] := by
  have hreported : (getCopiedType.run respond
      (.fresh [] .calm, offering [ascii "TARGETS", ascii "image/png"])).1 = some .image := by
    decide
  have hagree : NamesAgree [ascii "TARGETS", ascii "image/png"] := by
    unfold NamesAgree LikeFiles LikeImage
    decide
  exact ⟨hreported,
    ((copiedType_fetched_iff .default 0 (offering_offers _)).mpr hagree).2 hreported⟩

/-- Two clipboards for which the answer is a type that is not fetched: a JPEG image, for which a
    target is asked that is not offered, and a name that goes on after the one of copied files. -/
theorem copiedType_not_fetched :
    ((getCopiedType.run respond (.fresh [] .calm, offering [ascii "image/jpeg"])).1 = some .image ∧
      some (ascii "image/png") ∈ requested ((getImage .default .copiedOnly 0).trace respond
        (.fresh [] .calm, offering [ascii "image/jpeg"])) ∧
      ascii "image/png" ∉ [ascii "image/jpeg"]) ∧
    (getCopiedType.run respond
        (.fresh [] .calm, offering [gnomeCopiedFiles ++ ascii ";v=2"])).1 = some .file ∧
      some gnomeCopiedFiles ∉ requested (getCopiedFilesAsStr.trace respond
        (.fresh [] .calm, offering [gnomeCopiedFiles ++ ascii ";v=2"])) := by
  refine ⟨⟨by decide, ?_, by decide⟩, by decide, ?_⟩
  · rw [requested_image]
    exact List.mem_singleton_self _
  · rw [requested_files (offering_offers _)]
    decide

end ClipShare
