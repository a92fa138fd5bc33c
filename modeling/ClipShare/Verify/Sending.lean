import ClipShare.Server.Methods

namespace ClipShare

open Interaction Posix

/-!
# Sending a file that changes

`_transfer_regular_file` announces the size of a file, and then reads until that many bytes have
been sent.  Here the file answers each read as it likes.

* `Feed` — the size that was found and the answers to the reads, with the machine `Feed.answer`;
* `Feed.sent` — the content that the first reads deliver;
* `transferContent_run` — how the loop can end, for every fuel;
* `frameExact_iff` — the content has the announced length exactly if no read delivers more than
  what is left;
* `sendingEnds_iff` — the loop ends exactly if the reads reach the announced size.
-/

/-- A file that is opened for reading: its size, and what each read delivers. -/
structure Feed where
  size : Int
  reads : Nat → Bytes
  length_le : ∀ k, (reads k).length ≤ fileBufSz

namespace Feed

/-- How often the file has been read, how often the client has been written to, and what it was
    sent. -/
structure State where
  reads : Nat
  writes : Nat
  output : Bytes

/-- The answers of the file, and of a client for which `writes` tells what succeeds. -/
def answer (feed : Feed) (writes : Nat → Bool) : Machine Calls State
  | .openRead _, s => (some (.regular 0), s)
  | .fileSize _, s => (feed.size, s)
  | .fread _ _ _, s => (feed.reads s.reads, { s with reads := s.reads + 1 })
  | .writeSock data, s =>
      if writes s.writes then
        (true, { s with writes := s.writes + 1, output := s.output ++ data })
      else (false, { s with writes := s.writes + 1 })
  | c, s => ((respond c (.fresh [] .calm, Host.empty)).1, s)

/-- Nothing has happened yet. -/
def State.start : State := ⟨0, 0, []⟩

/-- What the first `k` reads deliver. -/
def sent (feed : Feed) (k : Nat) : Bytes := (List.range k).flatMap feed.reads

/-- How many bytes the first `k` reads deliver. -/
def total (feed : Feed) (k : Nat) : Nat := (feed.sent k).length

variable {feed : Feed} {writes : Nat → Bool}

theorem sent_succ (k : Nat) : feed.sent (k + 1) = feed.sent k ++ feed.reads k := by
  unfold sent
  rw [List.range_succ, List.flatMap_append, List.flatMap_singleton]

theorem total_succ (k : Nat) : feed.total (k + 1) = feed.total k + (feed.reads k).length := by
  unfold total
  rw [sent_succ, List.length_append]

theorem answer_fread (stream : Stream) (off n : Nat) (s : State) :
    feed.answer writes (.fread stream off n) s
      = (feed.reads s.reads, ⟨s.reads + 1, s.writes, s.output⟩) := rfl

/-! ### The loop -/

/-- How the loop can end when `k` reads have been made: it spins as long as the reads stay below the
    announced size, it fails when a write fails, or it comes to the first read with which they reach
    the size. -/
def Ends (feed : Feed) (writes : Nat → Bool) (start : Bytes) (k fuel : Nat) :
    Option Status × State → Prop
  | (none, _) => ∀ n, k ≤ n → n < k + fuel → (feed.total n : Int) < feed.size
  | (some .failure, _) => ∃ j, writes j = false
  | (some .success, s) => ∃ n, k ≤ n ∧ (∀ m, k ≤ m → m < n → (feed.total m : Int) < feed.size) ∧
      feed.size ≤ feed.total n ∧ s.output = start ++ feed.sent n

/-- **Step lemma.**  What the loop does after a read is what it does from there on. -/
theorem Ends.step {start : Bytes} {k fuel : Nat} {r : Option Status × State}
    (hlt : (feed.total k : Int) < feed.size) (h : Ends feed writes start (k + 1) fuel r) :
    Ends feed writes start k (fuel + 1) r := by
  have hfirst : ∀ {n}, k ≤ n → (k + 1 ≤ n → (feed.total n : Int) < feed.size) →
      (feed.total n : Int) < feed.size := by
    intro n hk hn
    rcases Nat.eq_or_lt_of_le hk with rfl | hk
    · exact hlt
    · exact hn hk
  obtain ⟨a, s⟩ := r
  cases a with
  | none => exact fun n hk hn => hfirst hk fun hk => h n hk (by omega)
  | some status =>
    cases status with
    | failure => exact h
    | success =>
      obtain ⟨n, hk, hbefore, hn, hout⟩ := h
      exact ⟨n, by omega, fun m hk hm => hfirst hk fun hk => hbefore m hk hm, hn, hout⟩

/-- A write to the client, after which the program goes on or fails. -/
theorem Ends.write {start data : Bytes} {k fuel : Nat} {f : Bool → Proc Status} {s : State}
    (hfail : f false = .ret .failure)
    (hgo : Ends feed writes start k fuel
      ((f true).run (feed.answer writes) ⟨s.reads, s.writes + 1, s.output ++ data⟩)) :
    Ends feed writes start k fuel
      ((Prog.call (S := Calls) (.writeSock data) f).run (feed.answer writes) s) := by
  rw [Prog.run_call]
  unfold answer
  dsimp only
  by_cases hwrite : writes s.writes = true
  · rw [if_pos hwrite]
    exact hgo
  · rw [if_neg hwrite, hfail]
    exact ⟨s.writes, Bool.eq_false_iff.mpr hwrite⟩

/-- **Run lemma.**  The loop of `_transfer_regular_file`, for every fuel. -/
theorem transferContent_run (stream : Stream) (start : Bytes) (fuel off : Nat) (s : State)
    (hout : s.output = start ++ feed.sent s.reads) :
    Ends feed writes start s.reads fuel
      ((transferContent stream fuel off (feed.size - feed.total s.reads)).run
        (feed.answer writes) s) := by
  induction fuel generalizing off s with
  | zero => exact fun n hk hn => absurd hn (by omega)
  | succ fuel ih =>
    unfold transferContent
    by_cases hdone : feed.size - feed.total s.reads ≤ 0
    · rw [if_pos hdone]
      exact ⟨s.reads, le_rfl, fun m hk hm => absurd hm (by omega), by omega, hout⟩
    · rw [if_neg hdone]
      obtain ⟨data, hdata⟩ : ∃ data, feed.reads s.reads = data := ⟨_, rfl⟩
      have hsent := feed.sent_succ s.reads
      have htotal := feed.total_succ s.reads
      rw [hdata] at hsent htotal
      unfold fread
      rw [Prog.ask_bind, Prog.run_call, answer_fread, hdata]
      dsimp only [id]
      refine Ends.step (by omega) ?_
      by_cases hempty : data = []
      · -- an empty read is tried again
        have hsame : feed.total (s.reads + 1) = feed.total s.reads := by
          rw [htotal, hempty]
          rfl
        have hnext := ih off ⟨s.reads + 1, s.writes, s.output⟩ (by
          rw [hsent, hempty, List.append_nil]
          exact hout)
        rw [if_pos hempty]
        rwa [hsame] at hnext
      · -- what was read counts as sent, also beyond the announced size
        have hleft : feed.size - feed.total (s.reads + 1)
            = feed.size - feed.total s.reads - data.length := by
          rw [htotal]
          push_cast
          omega
        have hnext := ih (off + data.length) ⟨s.reads + 1, s.writes + 1, s.output ++ data⟩ (by
          rw [hsent, ← List.append_assoc, ← hout])
        rw [hleft] at hnext
        rw [if_neg hempty]
        exact Ends.write rfl hnext

/-! ### The file -/

/-- What the client is sent before the content: the name with its length, and the size. -/
def announcement (feed : Feed) (filename : Bytes) : Bytes :=
  sizeBytes 8 filename.length ++ filename ++ sizeBytes 8 feed.size

/-- `_transfer_regular_file` with so much fuel. -/
def transfer (feed : Feed) (writes : Nat → Bool) (env : Env) (filePath filename : Bytes)
    (fuel : Nat) : Option Status × State :=
  (transferRegularFile { env with fuel } filePath filename).run (feed.answer writes) .start

/-- A file of a size that may be sent: after the announcement the loop decides how it ends. -/
theorem transfer_ends {env : Env} (h0 : 0 ≤ feed.size)
    (hmax : feed.size ≤ env.configuration.maxFileSize) (filePath filename : Bytes) (fuel : Nat) :
    Ends feed writes (feed.announcement filename) 0 fuel
      (feed.transfer writes env filePath filename fuel) := by
  have hrange : ¬ (feed.size < 0 ∨ feed.size > env.configuration.maxFileSize) := by omega
  unfold transfer transferRegularFile openRead getFileSize
  rw [Prog.ask_bind, Prog.run_call]
  show Ends _ _ _ _ _ (Prog.run _ (if feed.size < 0 ∨ feed.size > _ then _ else _) _)
  rw [if_neg hrange]
  refine Ends.write rfl (Ends.write rfl (Ends.write rfl ?_))
  have hzero : feed.size = feed.size - feed.total 0 := (sub_zero _).symm
  have hrun := @transferContent_run feed writes (.regular 0)
    (feed.announcement filename) fuel 0 ⟨0, 3, feed.announcement filename⟩
    (List.append_nil _).symm
  rw [← hzero] at hrun
  exact hrun

/-! ### The announced length -/

/-- The content of a file that is sent with success has the announced length. -/
def Exact (feed : Feed) (env : Env) (filePath filename : Bytes) : Prop :=
  ∀ writes fuel s, feed.transfer writes env filePath filename fuel = (some .success, s) →
    ∃ content, s.output = feed.announcement filename ++ content ∧ content.length = feed.size

/-- Sending the file comes to an end: for some fuel, and from there on for all. -/
def Finishes (feed : Feed) (env : Env) (filePath filename : Bytes) : Prop :=
  ∀ writes, ∃ n, ∀ fuel ≥ n, (feed.transfer writes env filePath filename fuel).1 ≠ none

section Results

variable {env : Env} {filePath filename : Bytes}

theorem total_mono {j k : Nat} (h : j ≤ k) : feed.total j ≤ feed.total k := by
  induction k, h using Nat.le_induction with
  | base => exact le_rfl
  | succ k _ ih =>
    rw [total_succ]
    omega

/-- With a client for which every write succeeds, the file is sent or the fuel runs out. -/
theorem transfer_reliable (h0 : 0 ≤ feed.size) (hmax : feed.size ≤ env.configuration.maxFileSize)
    (filePath filename : Bytes) (fuel : Nat) :
    ((feed.transfer (fun _ => true) env filePath filename fuel).1 = none ∧
      ∀ n < fuel, (feed.total n : Int) < feed.size) ∨
    ∃ s n, feed.transfer (fun _ => true) env filePath filename fuel = (some .success, s) ∧
      (∀ m < n, (feed.total m : Int) < feed.size) ∧ feed.size ≤ feed.total n ∧
      s.output = feed.announcement filename ++ feed.sent n := by
  have hends := @transfer_ends feed (fun _ => true) env h0 hmax filePath filename fuel
  generalize feed.transfer (fun _ => true) env filePath filename fuel = r at hends ⊢
  obtain ⟨a, s⟩ := r
  cases a with
  | none => exact .inl ⟨rfl, fun n hn => hends n (Nat.zero_le _) (by omega)⟩
  | some status =>
    cases status with
    | failure =>
      obtain ⟨j, hj⟩ := hends
      cases hj
    | success =>
      obtain ⟨n, -, hbefore, hn, hout⟩ := hends
      exact .inr ⟨s, n, rfl, fun m hm => hbefore m (Nat.zero_le _) hm, hn, hout⟩

/-- **The announced length.**  The content has it exactly if no read delivers more than what is
    left of it. -/
theorem exact_iff (h0 : 0 ≤ feed.size) (hmax : feed.size ≤ env.configuration.maxFileSize) :
    feed.Exact env filePath filename ↔
      ∀ k, (feed.total k : Int) < feed.size → (feed.total (k + 1) : Int) ≤ feed.size := by
  constructor
  · intro hexact k hk
    by_contra hover
    obtain ⟨-, hbelow⟩ | ⟨s, n, hr, hbefore, hn, hout⟩ :=
      transfer_reliable h0 hmax filePath filename (k + 2)
    · have := hbelow (k + 1) (by omega)
      omega
    · obtain ⟨content, hcontent, hlen⟩ := hexact _ _ _ hr
      have hsent : content = feed.sent n := List.append_cancel_left (hcontent.symm.trans hout)
      have htotal : (feed.total n : Int) = feed.size := by
        rw [← hlen, hsent]
        rfl
      -- the loop ends with the read that goes too far
      rcases Nat.lt_trichotomy n (k + 1) with hlt | rfl | hgt
      · have := @total_mono feed n k (by omega)
        omega
      · omega
      · have := hbefore (k + 1) hgt
        omega
  · intro hfits writes fuel s hr
    have hends := @transfer_ends feed writes env h0 hmax filePath filename fuel
    rw [hr] at hends
    obtain ⟨n, -, hbefore, hn, hout⟩ := hends
    refine ⟨feed.sent n, hout, ?_⟩
    show (feed.total n : Int) = feed.size
    cases n with
    | zero =>
      have hzero : feed.total 0 = 0 := rfl
      omega
    | succ m =>
      have := hfits m (hbefore m (Nat.zero_le _) (Nat.lt_succ_self m))
      omega

/-- **The end of sending.**  It comes exactly if the reads reach the announced size. -/
theorem finishes_iff (h0 : 0 ≤ feed.size) (hmax : feed.size ≤ env.configuration.maxFileSize) :
    feed.Finishes env filePath filename ↔ ∃ k, feed.size ≤ feed.total k := by
  constructor
  · intro hfinishes
    obtain ⟨n, hn⟩ := hfinishes fun _ => true
    obtain ⟨hnone, -⟩ | ⟨-, k, -, -, hk, -⟩ := transfer_reliable h0 hmax filePath filename n
    · exact absurd hnone (hn n le_rfl)
    · exact ⟨k, hk⟩
  · rintro ⟨k, hk⟩ writes
    refine ⟨k + 1, fun fuel hfuel hnone => ?_⟩
    have hends := @transfer_ends feed writes env h0 hmax filePath filename fuel
    generalize feed.transfer writes env filePath filename fuel = r at hends hnone
    obtain ⟨a, s⟩ := r
    obtain rfl : a = none := hnone
    have := hends k (Nat.zero_le _) (by omega)
    omega

end Results

end Feed

/-- A file that delivers `data` with the first read, and nothing after it. -/
def Feed.once (size : Int) (data : Bytes) (h : data.length ≤ fileBufSz) : Feed where
  size := size
  reads k := if k = 0 then data else []
  length_le k := by
    by_cases hk : k = 0
    · rwa [if_pos hk]
    · rw [if_neg hk]
      exact Nat.zero_le _

theorem Feed.total_once (size : Int) (data : Bytes) (h : data.length ≤ fileBufSz) (k : Nat) :
    (Feed.once size data h).total (k + 1) = data.length := by
  induction k with
  | zero => exact (total_succ 0).trans (Nat.zero_add _)
  | succ k ih =>
    rw [total_succ, ih]
    rfl

theorem exact_two : (Feed.once 2 [0x61, 0x62] (by decide)).Exact .default [0x66] [0x66] := by
  refine (Feed.exact_iff (by decide) (by decide)).mpr fun k _ => ?_
  rw [Feed.total_once]
  decide

theorem finishes_two : (Feed.once 2 [0x61, 0x62] (by decide)).Finishes .default [0x66] [0x66] :=
  (Feed.finishes_iff (by decide) (by decide)).mpr ⟨1, by decide⟩

/-- A file of one byte that has grown to two when it is read. -/
theorem not_exact_grown :
    ¬ (Feed.once 1 [0x61, 0x62] (by decide)).Exact .default [0x66] [0x66] := by
  intro hexact
  obtain ⟨-, hbelow⟩ | ⟨s, n, hr, hbefore, hn, hout⟩ :=
    @Feed.transfer_reliable (Feed.once 1 [0x61, 0x62] (by decide)) .default (by decide) (by decide)
      [0x66] [0x66] 2
  · exact absurd (hbelow 1 (by decide)) (by decide)
  · obtain ⟨content, hcontent, hlen⟩ := hexact _ _ _ hr
    obtain ⟨m, rfl⟩ : ∃ m, n = m + 1 := by
      cases n with
      | zero => exact absurd hn (by decide)
      | succ m => exact ⟨m, rfl⟩
    have htotal := Feed.total_once 1 [0x61, 0x62] (by decide) m
    unfold Feed.total at htotal
    rw [← List.append_cancel_left (hcontent.symm.trans hout), ← Nat.cast_inj (R := Int), hlen]
      at htotal
    exact absurd htotal (by decide)

/-- A file of one byte that is empty when it is read. -/
theorem not_finishes_truncated :
    ¬ (Feed.once 1 [] (by decide)).Finishes .default [0x66] [0x66] := by
  intro hfinishes
  obtain ⟨n, hn⟩ := hfinishes fun _ => true
  obtain ⟨hnone, -⟩ | ⟨-, k, -, -, hk, -⟩ :=
    @Feed.transfer_reliable (Feed.once 1 [] (by decide)) .default (by decide) (by decide)
      [0x66] [0x66] n
  · exact hn n le_rfl hnone
  · cases k with
    | zero => exact absurd hk (by decide)
    | succ k =>
      rw [Feed.total_once] at hk
      exact absurd hk (by decide)

end ClipShare
