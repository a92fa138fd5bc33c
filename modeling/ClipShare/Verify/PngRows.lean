import ClipShare.Server.PngRows

namespace ClipShare

open Posix

/-!
# The colours of a screenshot

When the rows of a screenshot are converted inside their blocks, and that they have the colours of
the image.

* `XImage.rounds` — how many pixels of a line are converted;
* `XImage.InBounds` — the images whose conversion stays inside the blocks;
* `XImage.colours` — the rows as they should be;
* `pngWriteBuf_colours` — what libpng gets.
-/

/-- How many pixels of a line are converted. -/
def XImage.rounds (img : XImage) : Nat :=
  if img.bytesPerLine < 3 then 0 else (img.bytesPerLine - 3) / img.bytesPerPixel + 1

/-- The farthest byte of a pixel that is read. -/
def XImage.far (img : XImage) : Nat := if img.lsbFirst then 2 else 3

/-- The converted pixels fit the row, and the last one does not reach beyond the line. -/
def XImage.InBounds (img : XImage) : Prop :=
  3 * img.rounds ≤ 4 * img.width ∧
    (img.rounds = 0 ∨ (img.rounds - 1) * img.bytesPerPixel + img.far < img.bytesPerLine)

/-- Red, green and blue of the pixel at a position, which is BGRA or ARGB. -/
def XImage.colour (img : XImage) (i : Nat) : Bytes :=
  if img.lsbFirst then [img.data.getD (i + 2) 0, img.data.getD (i + 1) 0, img.data.getD i 0]
  else [img.data.getD (i + 1) 0, img.data.getD (i + 2) 0, img.data.getD (i + 3) 0]

/-- The first `k` pixels from a position on. -/
def XImage.colours (img : XImage) (i k : Nat) : Bytes :=
  (List.range k).flatMap fun x => img.colour (i + x * img.bytesPerPixel)

/-- All rows. -/
def XImage.rows (img : XImage) : List Bytes :=
  (List.range img.height).map fun y => img.colours (y * img.bytesPerLine) img.width

/-! ### The loop of a conversion -/

section Loop

variable {a b c d : Nat} {img : XImage} {srow fuel sx : Nat} {front free : Bytes}

/-- The three bytes that are written for the pixel at a position. -/
def pixelBytes (a b c : Nat) (img : XImage) (i : Nat) : Bytes :=
  [img.data.getD (i + a) 0, img.data.getD (i + b) 0, img.data.getD (i + c) 0]

theorem getElem?_eq_getD {data : Bytes} {i : Nat} (h : i < data.length) :
    data[i]? = some (data.getD i 0) := by
  simp [h]

/-- A turn whose reads and writes are in bounds. -/
theorem convertrowLoop_step (hline : sx + 3 ≤ img.bytesPerLine) (ha : a ≤ d) (hb : b ≤ d)
    (hc : c ≤ d) (hread : srow + sx + d < img.data.length) (hroom : 3 ≤ free.length) :
    convertrowLoop a b c img srow (fuel + 1) sx front.length (front ++ free) =
      convertrowLoop a b c img srow fuel (sx + img.bytesPerPixel)
        (front ++ pixelBytes a b c img (srow + sx)).length
        (front ++ pixelBytes a b c img (srow + sx) ++ free.drop 3) := by
  obtain ⟨x, y, z, rest, rfl⟩ : ∃ x y z rest, free = x :: y :: z :: rest := by
    rcases free with _ | ⟨x, _ | ⟨y, _ | ⟨z, rest⟩⟩⟩
    all_goals first | exact ⟨_, _, _, _, rfl⟩ | simp at hroom
  have hstore (front : Bytes) (v w : UInt8) (rest : Bytes) {i : Nat} (hi : i = front.length) :
      store (front ++ w :: rest) i [v] = some (front ++ [v] ++ rest) := by
    rw [hi]
    exact store_append front [v] (w :: rest) (by simp)
  simp only [convertrowLoop, if_pos hline, Option.bind_eq_bind,
    getElem?_eq_getD (show srow + sx + a < img.data.length by omega),
    getElem?_eq_getD (show srow + sx + b < img.data.length by omega),
    getElem?_eq_getD (show srow + sx + c < img.data.length by omega), Option.bind_some]
  rw [hstore front _ x _ rfl, Option.bind_some, hstore _ _ y _ (by simp), Option.bind_some,
    hstore _ _ z _ (by simp), Option.bind_some]
  simp [pixelBytes]

/-- A turn that succeeds had its reads and writes in bounds. -/
theorem convertrowLoop_bounds (hline : sx + 3 ≤ img.bytesPerLine) (hd : a = d ∨ b = d ∨ c = d)
    {r : Bytes} (h : convertrowLoop a b c img srow fuel sx front.length (front ++ free) = some r) :
    srow + sx + d < img.data.length ∧ 3 ≤ free.length := by
  cases fuel with
  | zero => cases h
  | succ fuel =>
    simp only [convertrowLoop, if_pos hline, Option.bind_eq_bind, Option.bind_eq_some_iff] at h
    obtain ⟨r₁, hr₁, d₁, hd₁, r₂, hr₂, d₂, hd₂, r₃, hr₃, d₃, hd₃, -⟩ := h
    have hlen₁ := length_store hd₁
    have hlen₂ := length_store hd₂
    obtain ⟨hlt₁, -⟩ := List.getElem?_eq_some_iff.mp hr₁
    obtain ⟨hlt₂, -⟩ := List.getElem?_eq_some_iff.mp hr₂
    obtain ⟨hlt₃, -⟩ := List.getElem?_eq_some_iff.mp hr₃
    refine ⟨by omega, ?_⟩
    by_contra hroom
    have hnone : store d₂ (front.length + 2) [r₃] = none := by
      rw [store_eq_none_iff, hlen₂, hlen₁, List.length_append, List.length_singleton]
      omega
    rw [hnone] at hd₃
    cases hd₃

theorem shift_pixel (i : Nat) (img : XImage) (k : Nat) :
    i + (k + 1) * img.bytesPerPixel = i + img.bytesPerPixel + k * img.bytesPerPixel := by
  rw [Nat.succ_mul]
  omega

theorem pixels_succ (a b c : Nat) (img : XImage) (i k : Nat) :
    ((List.range (k + 1)).flatMap fun x => pixelBytes a b c img (i + x * img.bytesPerPixel)) =
      pixelBytes a b c img i ++ (List.range k).flatMap fun x =>
        pixelBytes a b c img (i + img.bytesPerPixel + x * img.bytesPerPixel) := by
  rw [List.range_succ_eq_map, List.flatMap_cons, List.flatMap_map]
  congr 1
  · simp
  · exact List.flatMap_congr fun x _ => by rw [shift_pixel]

/-- The loop over `k` pixels. -/
theorem convertrowLoop_some (fuel : Nat) (front free : Bytes) (ha : a ≤ d) (hb : b ≤ d)
    (hc : c ≤ d) (k : Nat)
    (hmore : ∀ i < k, sx + i * img.bytesPerPixel + 3 ≤ img.bytesPerLine)
    (hend : ¬ sx + k * img.bytesPerPixel + 3 ≤ img.bytesPerLine) (hfuel : k < fuel)
    (hroom : 3 * k ≤ free.length)
    (hread : ∀ i < k, srow + sx + i * img.bytesPerPixel + d < img.data.length) :
    convertrowLoop a b c img srow fuel sx front.length (front ++ free) =
      some (front ++ ((List.range k).flatMap fun i =>
        pixelBytes a b c img (srow + sx + i * img.bytesPerPixel)) ++ free.drop (3 * k)) := by
  -- what is written in a turn is in front of what is free in the next one
  induction k generalizing sx front free fuel with
  | zero =>
    obtain ⟨fuel, rfl⟩ := Nat.exists_eq_add_one_of_ne_zero (by omega : fuel ≠ 0)
    simp only [Nat.zero_mul, Nat.add_zero] at hend
    simp [convertrowLoop, if_neg hend]
  | succ k ih =>
    obtain ⟨fuel, rfl⟩ := Nat.exists_eq_add_one_of_ne_zero (by omega : fuel ≠ 0)
    have hline := hmore 0 (by omega)
    have hread0 := hread 0 (by omega)
    simp only [Nat.zero_mul, Nat.add_zero] at hline hread0
    rw [convertrowLoop_step hline ha hb hc hread0 (by omega), ih]
    · rw [pixels_succ, List.drop_drop, show 3 + 3 * k = 3 * (k + 1) by omega,
        Nat.add_assoc srow sx]
      simp only [List.append_assoc]
    · intro i hi
      rw [← shift_pixel]
      exact hmore (i + 1) (by omega)
    · rwa [← shift_pixel]
    · omega
    · rw [List.length_drop]
      omega
    · intro i hi
      have := hread (i + 1) (by omega)
      rw [Nat.add_assoc srow, shift_pixel] at this
      omega

/-- A loop over `k` pixels that succeeds had all of them in bounds. -/
theorem convertrowLoop_within (front free : Bytes) (ha : a ≤ d) (hb : b ≤ d) (hc : c ≤ d)
    (hd : a = d ∨ b = d ∨ c = d) (k : Nat)
    (hmore : ∀ i < k, sx + i * img.bytesPerPixel + 3 ≤ img.bytesPerLine) {r : Bytes}
    (h : convertrowLoop a b c img srow fuel sx front.length (front ++ free) = some r) :
    3 * k ≤ free.length ∧ ∀ i < k, srow + sx + i * img.bytesPerPixel + d < img.data.length := by
  induction k generalizing sx front free fuel with
  | zero => exact ⟨Nat.zero_le _, fun i hi => absurd hi (Nat.not_lt_zero i)⟩
  | succ k ih =>
    have hline := hmore 0 (by omega)
    simp only [Nat.zero_mul, Nat.add_zero] at hline
    obtain ⟨hread, hroom⟩ := convertrowLoop_bounds hline hd h
    cases fuel with
    | zero => cases h
    | succ fuel =>
      rw [convertrowLoop_step hline ha hb hc hread hroom] at h
      obtain ⟨hfree, hreads⟩ := ih _ _ (fun i _ =>
        shift_pixel sx img i ▸ hmore (i + 1) (by omega)) h
      rw [List.length_drop] at hfree
      refine ⟨by omega, fun i hi => ?_⟩
      cases i with
      | zero => simpa using hread
      | succ i =>
        have := hreads i (by omega)
        rw [Nat.add_assoc srow, shift_pixel]
        omega

end Loop

/-! ### A row -/

section Row

variable {img : XImage} {srow : Nat} {drow : Bytes}

/-- The conversion of a row, in either byte order. -/
theorem convert_eq (img : XImage) (srow : Nat) (drow : Bytes) :
    img.convert drow srow img =
      convertrowLoop (if img.lsbFirst then 2 else 1) (if img.lsbFirst then 1 else 2)
        (if img.lsbFirst then 0 else 3) img srow (drow.length + 1) 0 0 drow := by
  unfold XImage.convert
  cases img.lsbFirst <;> rfl

theorem rounds_more (hpixel : 0 < img.bytesPerPixel) :
    ∀ i < img.rounds, 0 + i * img.bytesPerPixel + 3 ≤ img.bytesPerLine := by
  intro i hi
  unfold XImage.rounds at hi
  split at hi
  · omega
  · have hle : i * img.bytesPerPixel ≤ img.bytesPerLine - 3 :=
      (Nat.le_div_iff_mul_le hpixel).mp (Nat.le_of_lt_succ hi)
    omega

theorem rounds_end (hpixel : 0 < img.bytesPerPixel) :
    ¬ 0 + img.rounds * img.bytesPerPixel + 3 ≤ img.bytesPerLine := by
  unfold XImage.rounds
  split
  · omega
  · have hlt := Nat.lt_div_mul_add (a := img.bytesPerLine - 3) hpixel
    rw [Nat.succ_mul]
    omega

theorem pixelBytes_eq_colour (img : XImage) (i : Nat) :
    pixelBytes (if img.lsbFirst then 2 else 1) (if img.lsbFirst then 1 else 2)
      (if img.lsbFirst then 0 else 3) img i = img.colour i := by
  unfold pixelBytes XImage.colour
  cases img.lsbFirst <;> rfl

/-- The offsets of a pixel, of which the farthest is read. -/
theorem offsets_le_far (img : XImage) :
    (if img.lsbFirst then 2 else 1) ≤ img.far ∧ (if img.lsbFirst then 1 else 2) ≤ img.far ∧
      (if img.lsbFirst then 0 else 3) ≤ img.far ∧
      ((if img.lsbFirst then 2 else 1) = img.far ∨ (if img.lsbFirst then 1 else 2) = img.far ∨
        (if img.lsbFirst then 0 else 3) = img.far) := by
  unfold XImage.far
  cases img.lsbFirst <;> simp

theorem far_le (img : XImage) : img.far ≤ 3 := by
  unfold XImage.far
  split <;> omega

/-- A row of an image whose conversion stays in bounds. -/
theorem convert_some (srow : Nat) (hpixel : 0 < img.bytesPerPixel) (hin : img.InBounds)
    (hrow : srow + img.bytesPerLine ≤ img.data.length) (hdrow : drow.length = 4 * img.width) :
    img.convert drow srow img =
      some (img.colours srow img.rounds ++ drow.drop (3 * img.rounds)) := by
  obtain ⟨hroom, hlast⟩ := hin
  obtain ⟨ha, hb, hc, -⟩ := offsets_le_far img
  have hread : ∀ i < img.rounds, srow + 0 + i * img.bytesPerPixel + img.far < img.data.length := by
    intro i hi
    have hle : i * img.bytesPerPixel ≤ (img.rounds - 1) * img.bytesPerPixel :=
      Nat.mul_le_mul_right _ (by omega)
    omega
  have hloop := convertrowLoop_some (drow.length + 1) [] drow ha hb hc img.rounds
    (rounds_more hpixel) (rounds_end hpixel) (by omega) (by omega) hread
  rw [convert_eq]
  refine hloop.trans ?_
  simp only [pixelBytes_eq_colour, List.nil_append, Nat.add_zero]
  rfl

/-- A row whose conversion succeeds. -/
theorem convert_within (hpixel : 0 < img.bytesPerPixel) (hdrow : drow.length = 4 * img.width)
    {r : Bytes} (h : img.convert drow srow img = some r) :
    3 * img.rounds ≤ 4 * img.width ∧
      ∀ i < img.rounds, srow + i * img.bytesPerPixel + img.far < img.data.length := by
  obtain ⟨ha, hb, hc, hd⟩ := offsets_le_far img
  rw [convert_eq] at h
  have hwithin := convertrowLoop_within [] drow ha hb hc hd img.rounds (rounds_more hpixel) h
  rwa [hdrow] at hwithin

/-- What succeeds is as long as it was. -/
theorem length_convertrowLoop {a b c fuel sx dx : Nat} {r : Bytes}
    (h : convertrowLoop a b c img srow fuel sx dx drow = some r) : r.length = drow.length := by
  induction fuel generalizing sx dx drow with
  | zero => cases h
  | succ fuel ih =>
    unfold convertrowLoop at h
    split at h
    · simp only [Option.bind_eq_bind, Option.bind_eq_some_iff] at h
      obtain ⟨_, _, d₁, hd₁, _, _, d₂, hd₂, _, _, d₃, hd₃, hrest⟩ := h
      rw [ih hrest, length_store hd₃, length_store hd₂, length_store hd₁]
    · cases h
      rfl

/-- Lines that are nothing but their pixels. -/
theorem rounds_unpadded (hpixel : 3 ≤ img.bytesPerPixel)
    (hline : img.bytesPerLine = img.bytesPerPixel * img.width) : img.rounds = img.width := by
  have hpos : 0 < img.bytesPerPixel := by omega
  unfold XImage.rounds
  split
  · next hshort =>
    rw [hline] at hshort
    by_contra hwidth
    have := Nat.mul_le_mul hpixel (show 1 ≤ img.width by omega)
    omega
  · next hlong =>
    rw [hline] at hlong ⊢
    have hne : img.width ≠ 0 := by
      intro hzero
      rw [hzero, Nat.mul_zero] at hlong
      exact hlong (by decide)
    obtain ⟨w, hw⟩ := Nat.exists_eq_add_one_of_ne_zero hne
    rw [hw, Nat.mul_succ, Nat.add_sub_assoc hpixel, Nat.mul_add_div hpos,
      Nat.div_eq_of_lt (by omega), Nat.add_zero]

/-- For lines that are nothing but their pixels, only the last byte that is read matters. -/
theorem inBounds_unpadded (hpixel : 3 ≤ img.bytesPerPixel)
    (hline : img.bytesPerLine = img.bytesPerPixel * img.width) :
    img.InBounds ↔ img.width = 0 ∨ img.far < img.bytesPerPixel := by
  unfold XImage.InBounds
  rw [rounds_unpadded hpixel hline, hline]
  cases img.width with
  | zero => simp
  | succ w =>
    rw [Nat.add_sub_cancel, Nat.mul_succ img.bytesPerPixel w, Nat.mul_comm w]
    omega

end Row

/-! ### All rows -/

section Rows

variable {img : XImage}

theorem length_colours (img : XImage) (i k : Nat) : (img.colours i k).length = 3 * k := by
  have hcolour (i : Nat) : (img.colour i).length = 3 := by
    unfold XImage.colour
    cases img.lsbFirst <;> rfl
  simp [XImage.colours, List.length_flatMap, hcolour, Nat.mul_comm]

/-- Of the pixels that are converted, libpng takes the first ones. -/
theorem take_colours (img : XImage) (i : Nat) {w k : Nat} (h : w ≤ k) (rest : Bytes) :
    (img.colours i k ++ rest).take (3 * w) = img.colours i w := by
  obtain ⟨m, rfl⟩ := Nat.exists_eq_add_of_le h
  have hsplit : img.colours i (w + m) = img.colours i w ++
      ((List.range m).map (w + ·)).flatMap fun x => img.colour (i + x * img.bytesPerPixel) := by
    unfold XImage.colours
    rw [List.range_add, List.flatMap_append]
  rw [hsplit, List.append_assoc]
  exact List.take_left' (length_colours img i w)

/-- The rows of an image whose conversion stays in bounds. -/
theorem pngRows_some (hpixel : 0 < img.bytesPerPixel) (hin : img.InBounds) (h srow : Nat)
    {drow : Bytes} (hdata : srow + h * img.bytesPerLine ≤ img.data.length)
    (hdrow : drow.length = 4 * img.width) :
    ∃ rows, pngRows img h srow drow = some rows ∧ (img.width ≤ img.rounds →
      rows = (List.range h).map fun y => img.colours (srow + y * img.bytesPerLine) img.width) := by
  induction h generalizing srow drow with
  | zero => exact ⟨[], rfl, fun _ => rfl⟩
  | succ h ih =>
    rw [Nat.succ_mul] at hdata
    have hrow := convert_some srow hpixel hin (by omega) hdrow
    have hlen : (img.colours srow img.rounds ++ drow.drop (3 * img.rounds)).length =
        4 * img.width := by
      have := hin.1
      rw [List.length_append, length_colours, List.length_drop]
      omega
    obtain ⟨rows, hrows, hcolours⟩ := ih (srow + img.bytesPerLine) (by omega) hlen
    refine ⟨(img.colours srow img.rounds ++ drow.drop (3 * img.rounds)).take (3 * img.width) ::
      rows, ?_, fun hwidth => ?_⟩
    · rw [pngRows, hrow, Option.bind_eq_bind, Option.bind_some, hrows]
      rfl
    · rw [take_colours img srow hwidth, hcolours hwidth, List.range_succ_eq_map, List.map_cons,
        List.map_map]
      congr 1
      · simp
      · refine List.map_congr_left fun y _ => ?_
        rw [Function.comp_apply, Nat.succ_mul]
        congr 1
        omega

/-- Rows whose conversion succeeds, up to the end of the image. -/
theorem pngRows_within (hpixel : 0 < img.bytesPerPixel) {h : Nat} (hpos : 0 < h) {srow : Nat}
    {drow : Bytes} (hdata : srow + h * img.bytesPerLine = img.data.length)
    (hdrow : drow.length = 4 * img.width) {rows : List Bytes}
    (hrows : pngRows img h srow drow = some rows) : img.InBounds := by
  induction h generalizing srow drow rows with
  | zero => omega
  | succ h ih =>
    simp only [pngRows, Option.bind_eq_bind, Option.bind_eq_some_iff] at hrows
    obtain ⟨row, hrow, rest, hrest, -⟩ := hrows
    rw [Nat.succ_mul] at hdata
    by_cases hlast : h = 0
    · -- the last row: what is read beyond it is beyond the image
      obtain ⟨hroom, hreads⟩ := convert_within hpixel hdrow hrow
      refine ⟨hroom, ?_⟩
      by_cases hnone : img.rounds = 0
      · exact Or.inl hnone
      · have hread := hreads (img.rounds - 1) (by omega)
        rw [hlast, Nat.zero_mul] at hdata
        exact Or.inr (by omega)
    · have hlen : row.length = 4 * img.width := by
        rw [convert_eq] at hrow
        rw [length_convertrowLoop hrow, hdrow]
      exact ih (by omega) (by omega) hlen hrest

end Rows

/-- **Screenshots.** If an image has as many bytes as its lines say, its conversion stays inside the
    blocks exactly if the pixels of a line, of which three bytes each are written, fit a row of four
    bytes each, and no byte beyond the line is read.  If it does, and a line has a pixel for each
    column, libpng gets the colours of the image.  Without padding of the lines, this is the case in
    both byte orders if a pixel has four bytes, and only with the least significant byte first if it
    has three. -/
theorem pngWriteBuf_colours (junk : Nat → UInt8) (img : XImage) (hpixel : 0 < img.bytesPerPixel)
    (hheight : 0 < img.height) (hdata : img.data.length = img.height * img.bytesPerLine) :
    ((pngWriteBuf junk img).isSome ↔ img.InBounds) ∧
      (img.InBounds → img.width ≤ img.rounds → pngWriteBuf junk img = some img.rows) ∧
      (img.bytesPerPixel = 4 → img.bytesPerLine = 4 * img.width →
        pngWriteBuf junk img = some img.rows) ∧
      (img.bytesPerPixel = 3 → img.bytesPerLine = 3 * img.width → 0 < img.width →
        pngWriteBuf junk img = if img.lsbFirst then some img.rows else none) := by
  have hlen : (malloc junk (img.width * 4)).length = 4 * img.width := by
    rw [length_malloc, Nat.mul_comm]
  have hsome : (pngWriteBuf junk img).isSome ↔ img.InBounds := by
    constructor
    · intro hsome
      obtain ⟨rows, hrows⟩ := Option.isSome_iff_exists.mp hsome
      exact pngRows_within hpixel hheight (by omega) hlen hrows
    · intro hin
      obtain ⟨rows, hrows, -⟩ := pngRows_some hpixel hin img.height 0 (by omega) hlen
      rw [pngWriteBuf, hrows]
      rfl
  have hdone (hin : img.InBounds) (hwidth : img.width ≤ img.rounds) :
      pngWriteBuf junk img = some img.rows := by
    obtain ⟨rows, hrows, hcolours⟩ := pngRows_some hpixel hin img.height 0 (by omega) hlen
    rw [pngWriteBuf, hrows, hcolours hwidth]
    simp [XImage.rows]
  refine ⟨hsome, hdone, fun hfour hline => ?_, fun hthree hline hwidth => ?_⟩
  · have hrounds : img.rounds = img.width := rounds_unpadded (by omega) (by rw [hline, hfour])
    refine hdone ((inBounds_unpadded (by omega) (by rw [hline, hfour])).mpr ?_) hrounds.ge
    have := far_le img
    omega
  · have hline' : img.bytesPerLine = img.bytesPerPixel * img.width := by rw [hline, hthree]
    have hbounds := inBounds_unpadded (by omega) hline'
    split
    · next hlsb =>
      refine hdone (hbounds.mpr (Or.inr ?_)) (rounds_unpadded (by omega) hline').ge
      rw [hthree, XImage.far, if_pos hlsb]
      decide
    · next hmsb =>
      rw [← Option.not_isSome_iff_eq_none, hsome, hbounds, hthree, XImage.far, if_neg hmsb]
      omega

/-- A column of two pixels, a line each. -/
def column : XImage where
  width := 1
  height := 2
  bitsPerPixel := 32
  bytesPerLine := 4
  lsbFirst := true
  data := [1, 2, 3, 4, 5, 6, 7, 8]

theorem pngWriteBuf_column :
    pngWriteBuf (fun _ => 0) column = some [[3, 2, 1], [7, 6, 5]] := by
  obtain ⟨-, -, hfour, -⟩ :=
    pngWriteBuf_colours (fun _ => 0) column (by decide) (by decide) (by decide)
  exact hfour (by decide) (by decide)

end ClipShare
