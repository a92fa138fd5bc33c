import ClipShare.Posix.FileSystem
import Mathlib.Data.List.DropRight

namespace Posix

/-!
# Path strings

A path string names a location of the tree through its components, the pieces between the
separators.  Empty components and `.` stay where they are, `..` goes up, and every component
has to be looked up in a directory.

* `components` — the pieces of a path string;
* `FileSystem.resolve` — the location that a string names, if there is something there;
* `FileSystem.resolveNew` — the directory and the name under which a call such as `mkdir`
  would create an entry;
* `plain` — the components that count when there is no `..`; `walk_eq` says that following a
  path without `..` ends at the location made of its plain components;
* `IsPart` — the path strings on the way to a path string, and what they are as components.
-/

/-- The separator `/`. -/
def sep : UInt8 := 0x2f

/-- The component `.`. -/
def dot : Name := [0x2e]

/-- The component `..`. -/
def dotdot : Name := [0x2e, 0x2e]

/-- The pieces of a path string between its separators. -/
def components (s : Bytes) : List Name := s.splitOn sep

theorem components_append_sep (s t : Bytes) :
    components (s ++ sep :: t) = components s ++ components t :=
  List.splitOn_append_cons_self s t

theorem components_of_not_mem {s : Bytes} (h : sep ∉ s) : components s = [s] :=
  List.splitOn_eq_singleton h

theorem components_cons_sep (t : Bytes) : components (sep :: t) = [] :: components t := by
  simpa [components_of_not_mem] using components_append_sep [] t

@[simp] theorem components_ne_nil (s : Bytes) : components s ≠ [] := List.splitOn_ne_nil _ _

/-- No component contains a separator. -/
theorem sep_not_mem_of_mem_components {s c : Bytes} (h : c ∈ components s) : sep ∉ c := by
  induction s generalizing c with
  | nil =>
    rw [components_of_not_mem (by simp), List.mem_singleton] at h
    simp [h]
  | cons x s ih =>
    unfold components at h ih
    rw [List.splitOn_cons_eq_if_modifyHead] at h
    split at h
    · rcases List.mem_cons.mp h with rfl | h
      · simp
      · exact ih h
    · rename_i hx
      obtain ⟨d, ds, hd⟩ := List.exists_cons_of_ne_nil (List.splitOn_ne_nil sep s)
      rw [hd] at h ih
      rw [List.modifyHead_cons] at h
      rcases List.mem_cons.mp h with rfl | h
      · have hx' : x ≠ sep := by simpa using hx
        simp only [List.mem_cons, not_or]
        exact ⟨hx'.symm, ih (by simp)⟩
      · exact ih (List.mem_cons_of_mem _ h)

/-- The path string made of components. -/
def joined (cs : List Name) : Bytes := [sep].intercalate cs

theorem joined_components (s : Bytes) : joined (components s) = s := List.intercalate_splitOn sep

theorem components_joined {cs : List Name} (h : ∀ c ∈ cs, sep ∉ c) (hne : cs ≠ []) :
    components (joined cs) = cs := List.splitOn_intercalate sep h hne

@[simp] theorem joined_singleton (c : Name) : joined [c] = c := by simp [joined, List.intercalate]

theorem joined_cons_cons (c d : Name) (ds : List Name) :
    joined (c :: d :: ds) = c ++ sep :: joined (d :: ds) := by
  simp [joined, List.intercalate]

theorem joined_concat (c : Name) (cs : List Name) (d : Name) :
    joined (c :: cs ++ [d]) = joined (c :: cs) ++ sep :: d := by
  induction cs generalizing c with
  | nil => simp [joined_cons_cons]
  | cons e cs ih =>
    have hrest : joined (e :: (cs ++ [d])) = joined (e :: cs) ++ sep :: d := ih e
    rw [List.cons_append, List.cons_append, joined_cons_cons, hrest, joined_cons_cons]
    simp

theorem joined_append {cs ds : List Name} (hcs : cs ≠ []) (hds : ds ≠ []) :
    joined (cs ++ ds) = joined cs ++ sep :: joined ds := by
  induction cs with
  | nil => exact absurd rfl hcs
  | cons c cs ih =>
    cases cs with
    | nil =>
      obtain ⟨d, ds, rfl⟩ := List.exists_cons_of_ne_nil hds
      rw [List.singleton_append, joined_cons_cons, joined_singleton]
    | cons e cs =>
      have ih := ih (List.cons_ne_nil e cs)
      rw [List.cons_append, List.cons_append, joined_cons_cons, ← List.cons_append, ih,
        joined_cons_cons]
      simp

theorem length_le_joined {c : Name} {cs : List Name} (h : c ∈ cs) :
    c.length ≤ (joined cs).length := by
  induction cs with
  | nil => cases h
  | cons d ds ih =>
    cases ds with
    | nil => rw [List.mem_singleton.mp h, joined_singleton]
    | cons e es =>
      rw [joined_cons_cons, List.length_append, List.length_cons]
      rcases List.mem_cons.mp h with rfl | h
      · omega
      · have := ih h
        omega

/-- A component is not longer than its path string. -/
theorem length_le_of_mem_components {s c : Bytes} (h : c ∈ components s) : c.length ≤ s.length := by
  conv_rhs => rw [← joined_components s]
  exact length_le_joined h

/-- A part of a path string: what is before one of its separators, or all of it. -/
def IsPart (u s : Bytes) : Prop := u = s ∨ ∃ v, s = u ++ sep :: v

/-- A path string that goes on from components. -/
theorem exists_append_of_components {u s : Bytes} {ds : List Name} (hne : ds ≠ [])
    (h : components s = components u ++ ds) : s = u ++ sep :: joined ds := by
  rw [← joined_components s, h, joined_append (components_ne_nil u) hne, joined_components]

/-- The parts of a path string are the path strings of the first of its components. -/
theorem isPart_iff {u s : Bytes} : IsPart u s ↔ components u <+: components s := by
  constructor
  · rintro (rfl | ⟨v, rfl⟩)
    · exact List.prefix_rfl
    · rw [components_append_sep]
      exact List.prefix_append _ _
  · rintro ⟨ds, hds⟩
    by_cases hne : ds = []
    · rw [hne, List.append_nil] at hds
      left
      rw [← joined_components u, hds, joined_components]
    · exact .inr ⟨_, exists_append_of_components hne hds.symm⟩

/-- The first components of a path string are a part of it. -/
theorem exists_isPart {qs : List Name} {s : Bytes} (hne : qs ≠ []) (h : qs <+: components s) :
    ∃ u, IsPart u s ∧ components u = qs := by
  have hqs : components (joined qs) = qs :=
    components_joined (fun c hc => sep_not_mem_of_mem_components (h.subset hc)) hne
  exact ⟨joined qs, isPart_iff.mpr (by rwa [hqs]), hqs⟩

/-- What lies between two separators is a component, if there is no separator in it. -/
theorem mem_components_of_infix {s c : Bytes} (hc : sep ∉ c) (h : sep :: c ++ [sep] <:+: s) :
    c ∈ components s := by
  obtain ⟨u, v, rfl⟩ := h
  have hshape : u ++ (sep :: c ++ [sep]) ++ v = u ++ sep :: (c ++ sep :: v) := by simp
  rw [hshape, components_append_sep, components_append_sep, components_of_not_mem hc]
  simp

/-- A component that is not the first one has a separator before it. -/
theorem infix_of_mem_components {s c : Bytes} {k : Name} {ks : List Name}
    (hs : components s = k :: ks) (hc : c ∈ ks) (t : Bytes) :
    sep :: c ++ [sep] <:+: s ++ sep :: t := by
  have key : ∀ (ks : List Name) (k : Name), c ∈ ks →
      sep :: c ++ [sep] <:+: joined (k :: ks) ++ sep :: t := by
    intro ks
    induction ks with
    | nil => intro k h; cases h
    | cons d ds ih =>
      intro k hmem
      rw [joined_cons_cons]
      rcases List.mem_cons.mp hmem with rfl | hmem
      · cases ds with
        | nil => exact ⟨k, t, by simp⟩
        | cons e es =>
          rw [joined_cons_cons]
          exact ⟨k, joined (e :: es) ++ sep :: t, by simp⟩
      · obtain ⟨u, v, huv⟩ := ih d hmem
        refine ⟨k ++ sep :: u, v, ?_⟩
        have hshape : k ++ sep :: joined (d :: ds) ++ sep :: t
            = k ++ sep :: (joined (d :: ds) ++ sep :: t) := by simp
        rw [hshape, ← huv]
        simp
  rw [← joined_components s, hs]
  exact key ks k hc

/-- Does a component stay where it is? -/
def stays (c : Name) : Bool := c == [] || c == dot

/-- The components that go down, in a path without `..`. -/
def plain (cs : List Name) : Path := cs.filter (fun c => !stays c)

@[simp] theorem plain_nil : plain [] = [] := rfl

theorem plain_append (cs ds : List Name) : plain (cs ++ ds) = plain cs ++ plain ds :=
  List.filter_append ..

theorem plain_cons (c : Name) (cs : List Name) :
    plain (c :: cs) = if stays c then plain cs else c :: plain cs := by
  unfold plain
  cases h : stays c <;> simp [h]

theorem stays_eq_false {c : Name} : stays c = false ↔ c ≠ [] ∧ c ≠ dot := by
  simp [stays]

/-- Does the path end in a component that stays, so that it can only name a directory? -/
def endsInDir (cs : List Name) : Bool := cs.getLast?.any stays

theorem endsInDir_cons_cons (c d : Name) (ds : List Name) :
    endsInDir (c :: d :: ds) = endsInDir (d :: ds) := by
  simp [endsInDir, List.getLast?_cons_cons]

namespace FileSystem

variable (fs : FileSystem)

/-- Follow components from a location. -/
def walk (cur : Path) : List Name → Option Path
  | [] => if (fs.node cur).isSome then some cur else none
  | c :: cs =>
      if fs.node cur = some .dir then
        if stays c then walk cur cs
        else if c = dotdot then walk cur.dropLast cs
        else walk (cur ++ [c]) cs
      else none

/-- Where a path string starts. -/
def start (cwd : Path) (s : Bytes) : Path := if s.head? = some sep then [] else cwd

/-- The existing location that a path string names. -/
def resolve (cwd : Path) (s : Bytes) : Option Path :=
  if s = [] then none else fs.walk (start cwd s) (components s)

/-- The directory and the name under which a call would create an entry for a path string.
    Separators at the end are ignored; an entry cannot be called `.` or `..`. -/
def resolveNew (cwd : Path) (s : Bytes) : Option (Path × Name) :=
  let cs := (components s).rdropWhile (· == [])
  match cs.getLast? with
  | none => none
  | some n =>
      if n = dot ∨ n = dotdot then none
      else match fs.walk (start cwd s) cs.dropLast with
        | some p => if fs.node p = some .dir then some (p, n) else none
        | none => none

variable {fs}

/-- Following two paths in a row. -/
theorem walk_append (cur : Path) (cs ds : List Name) :
    fs.walk cur (cs ++ ds) = (fs.walk cur cs).bind (fun p => fs.walk p ds) := by
  induction cs generalizing cur with
  | nil =>
    rw [List.nil_append]
    by_cases h : (fs.node cur).isSome
    · simp [walk, h]
    · cases ds with
      | nil => simp [walk, h]
      | cons d ds =>
        have hd : fs.node cur ≠ some .dir := by rintro hd; simp [hd] at h
        simp [walk, h, hd]
  | cons c cs ih =>
    rw [List.cons_append, walk, walk]
    split
    · split
      · exact ih cur
      · split
        · exact ih _
        · exact ih _
    · rfl

/-- **Following a path without `..`** ends at the location made of its plain components: it
    succeeds when something is there, which has to be a directory if the path says so. -/
theorem walk_eq {cs : List Name} (hcs : dotdot ∉ cs) (cur : Path) :
    fs.walk cur cs = if (fs.node (cur ++ plain cs)).isSome ∧
        (endsInDir cs → fs.node (cur ++ plain cs) = some .dir)
      then some (cur ++ plain cs) else none := by
  induction cs generalizing cur with
  | nil => simp [walk, endsInDir]
  | cons c cs ih =>
    have hc : c ≠ dotdot := fun h => hcs (h ▸ List.mem_cons_self)
    have ih := ih (fun h => hcs (List.mem_cons_of_mem _ h))
    rw [walk, if_neg hc]
    by_cases hd : fs.node cur = some .dir
    · rw [if_pos hd, plain_cons]
      by_cases hs : stays c = true
      · rw [if_pos hs, if_pos hs, ih cur]
        cases cs with
        | nil => simp [endsInDir, hd, hs]
        | cons d ds => rw [endsInDir_cons_cons]
      · rw [if_neg hs, if_neg hs, ih (cur ++ [c]), List.append_assoc, List.singleton_append]
        cases cs with
        | nil => simp [endsInDir, hs]
        | cons d ds => rw [endsInDir_cons_cons]
    · -- something is in the way: nothing can be below it, and it is no directory itself
      rw [if_neg hd, if_neg]
      rintro ⟨hsome, hdir⟩
      by_cases hp : plain (c :: cs) = []
      · -- only components that stay: the path asks for a directory at `cur`
        have hall : ∀ x ∈ c :: cs, stays x = true := by
          intro x hx
          by_contra hns
          have : x ∈ plain (c :: cs) := List.mem_filter.mpr ⟨hx, by simp [hns]⟩
          rw [hp] at this
          cases this
        have hlast : endsInDir (c :: cs) = true := by
          unfold endsInDir
          rw [List.getLast?_eq_some_getLast (List.cons_ne_nil c cs)]
          exact hall _ (List.getLast_mem _)
        have := hdir hlast
        rw [hp, List.append_nil] at this
        exact hd this
      · rw [fs.node_below hd hp] at hsome
        simp at hsome

/-- `resolve` for a relative path without `..`. -/
theorem resolve_eq {cwd : Path} {s : Bytes} (hs : s ≠ []) (hrel : s.head? ≠ some sep)
    (hcs : dotdot ∉ components s) :
    fs.resolve cwd s = if (fs.node (cwd ++ plain (components s))).isSome ∧
        (endsInDir (components s) → fs.node (cwd ++ plain (components s)) = some .dir)
      then some (cwd ++ plain (components s)) else none := by
  rw [resolve, if_neg hs, start, if_neg hrel, walk_eq hcs]

/-- `resolveNew` for a relative path whose last component is a proper name. -/
theorem resolveNew_eq {cwd : Path} {s : Bytes} {cs : List Name} {n : Name}
    (hrel : s.head? ≠ some sep) (hcs : components s = cs ++ [n]) (hn : n ≠ []) (hdot : n ≠ dot)
    (hdd : n ≠ dotdot) :
    fs.resolveNew cwd s = match fs.walk cwd cs with
      | some p => if fs.node p = some .dir then some (p, n) else none
      | none => none := by
  have hdrop : (components s).rdropWhile (· == []) = cs ++ [n] := by
    rw [hcs, List.rdropWhile_concat_neg]
    simpa using hn
  unfold resolveNew
  rw [hdrop]
  simp only [List.getLast?_append, List.getLast?_singleton, Option.some_or,
    List.dropLast_concat, start, hrel, if_false, hdot, hdd, or_self]

end FileSystem

end Posix
