import ClipShare.Server.Transport

namespace ClipShare

open Interaction Posix

/-!
# The transport loops end, and deliver exactly

* `Transfers` — what the loops need to know of the call that they repeat;
* `transferRound_step`, `ensures_transfer` — one round, and the whole loop: it ends within eleven
  calls for each byte and one, and it fails only after a fatal result or eleven results without
  progress;
* `transport_loops` — this for `write_sock` and `read_sock`;
* `sizeField_codec` — the size field over any fragmentation.
-/

namespace Transport

variable {results : Nat → Result} {size fuel : Nat} {w : Wire}

/-- What a call to the transport answers, and how it is recorded. -/
inductive Answered : Nat → Bool → Result → Prop
  | moved {sz k : Nat} (h : 0 < sz) : Answered sz false (.moved k)
  | stalled : Answered 0 false .stalled
  | fatal : Answered 0 true .fatal

/-- A call that moves bytes from position `total` on: `J total` says that the first `total` bytes
    have been transferred, and nothing else. -/
def Transfers (results : Nat → Result) (size : Nat) (J : Nat → Wire → Prop)
    (transfer : Nat → Nat → WireProg (Nat × Bool)) : Prop :=
  ∀ total n w, 0 < n → total + n ≤ size → J total w →
    (transfer total n).Ensures (transport results) (fun _ w => ∃ total ≤ size, J total w) w
      fun r w' => J (total + r.1) w' ∧ r.1 ≤ n ∧
        ∃ how, w'.history = w.history ++ [how] ∧ Answered r.1 r.2 how

/-- Between two rounds: `calls` is what the loop has seen so far. -/
structure LoopInv (size : Nat) (J : Nat → Wire → Prop) (before calls : List Result)
    (counters : Nat × Nat) (w : Wire) : Prop where
  total : counters.2 ≤ size
  done : J counters.2 w
  cnt : counters.1 ≤ 11
  last : counters.2 = size → counters.1 ≤ 1
  history : w.history = before ++ calls
  length : calls.length ≤ 11 * counters.2 + counters.1
  -- the first stall is counted with 0 before the first progress, and with 1 later
  stalls : ∃ k, counters.1 ≤ k + 1 ∧ List.replicate k .stalled <:+ calls

/-- How a loop ends. -/
structure Delivered (size : Nat) (J : Nat → Wire → Prop) (before : List Result) (status : Status)
    (w : Wire) : Prop where
  done : ∃ total ≤ size, J total w ∧ (status = .success ↔ total = size)
  ends : ∃ calls, w.history = before ++ calls ∧ calls.length ≤ 11 * size + 1 ∧
    (status = .failure → [.fatal] <:+ calls ∨ List.replicate 11 .stalled <:+ calls)

/-- **Step lemma.**  A round makes progress, or uses up one of the results without progress that
    are tolerated, or it ends the loop. -/
theorem transferRound_step {J : Nat → Wire → Prop} {transfer : Nat → Nat → WireProg (Nat × Bool)}
    (ht : Transfers results size J transfer) {before calls : List Result} {counters : Nat × Nat}
    (h : LoopInv size J before calls counters w) :
    (transferRound size transfer counters).Ensures (transport results)
      (fun _ w => ∃ total ≤ size, J total w) w (Prog.Next
        (fun counters' w' => (∃ calls, LoopInv size J before calls counters' w') ∧
          11 * size + 1 - (11 * counters'.2 + counters'.1) <
            11 * size + 1 - (11 * counters.2 + counters.1))
        (fun status w' => Delivered size J before status w')) := by
  obtain ⟨cnt, total⟩ := counters
  obtain ⟨htotal, hdone, hcnt, hlast, hhist, hlen, k, hk, hstalls⟩ := h
  simp only at htotal hdone hcnt hlast hlen hk
  unfold transferRound
  by_cases hlt : total < size
  swap
  · -- everything was transferred
    have heq : total = size := le_antisymm htotal (not_lt.mp hlt)
    rw [if_neg hlt]
    have hcnt1 := hlast heq
    exact ⟨⟨total, htotal, hdone, fun _ => heq, fun _ => rfl⟩,
      calls, hhist, by omega, fun hs => by cases hs⟩
  rw [if_pos hlt]
  refine (ht total _ w (by omega) (by omega) hdone).bind ?_
  rintro ⟨sz, fatal⟩ w' ⟨hdone', hsz, how, hhow, hans⟩
  simp only at hdone' hsz hans
  have hhist' : w'.history = before ++ (calls ++ [how]) := by
    rw [hhow, hhist, List.append_assoc]
  have hlen' : (calls ++ [how]).length = calls.length + 1 := List.length_append
  show Prog.Ensures _ _ (if sz > 0 then _ else _) _ _
  cases hans with
  | moved hpos =>
    rw [if_pos hpos]
    refine ⟨⟨_, ⟨by show total + sz ≤ size; omega, hdone', by show (1 : Nat) ≤ 11; omega,
      fun _ => Nat.le_refl _, hhist', ?_, 0, Nat.le_refl _, List.nil_suffix⟩⟩, ?_⟩
    · rw [hlen']
      show calls.length + 1 ≤ 11 * (total + sz) + 1
      omega
    · show 11 * size + 1 - (11 * (total + sz) + 1) < 11 * size + 1 - (11 * total + cnt)
      omega
  | stalled =>
    rw [if_neg (Nat.lt_irrefl 0)]
    have hstalls' : List.replicate (k + 1) .stalled <:+ calls ++ [.stalled] := by
      obtain ⟨front, hfront⟩ := hstalls
      rw [← hfront, List.replicate_succ', List.append_assoc]
      exact List.suffix_append _ _
    show Prog.Ensures _ _ (if cnt > 10 ∨ (false : Bool) = true then _ else _) _ _
    by_cases hmany : cnt > 10
    · rw [if_pos (.inl hmany)]
      refine ⟨⟨total, htotal, hdone', fun hs => (by cases hs), fun hs => absurd hs hlt.ne⟩,
        _, hhist', by rw [hlen']; omega, fun _ => .inr ?_⟩
      have hsplit : k + 1 = (k - 10) + 11 := by omega
      rw [hsplit, List.replicate_add] at hstalls'
      exact (List.suffix_append _ _).trans hstalls'
    · rw [if_neg (not_or.mpr ⟨hmany, Bool.false_ne_true⟩)]
      refine ⟨⟨_, ⟨htotal, hdone', by show cnt + 1 ≤ 11; omega, fun hs => absurd hs hlt.ne,
        hhist', ?_, k + 1, by show cnt + 1 ≤ k + 1 + 1; omega, hstalls'⟩⟩, ?_⟩
      · rw [hlen']
        show calls.length + 1 ≤ 11 * total + (cnt + 1)
        omega
      · show 11 * size + 1 - (11 * total + (cnt + 1)) < 11 * size + 1 - (11 * total + cnt)
        omega
  | fatal =>
    rw [if_neg (Nat.lt_irrefl 0)]
    show Prog.Ensures _ _ (if cnt > 10 ∨ (true : Bool) = true then _ else _) _ _
    rw [if_pos (.inr rfl)]
    refine ⟨⟨total, htotal, hdone', fun hs => (by cases hs), fun hs => absurd hs hlt.ne⟩,
      _, hhist', by rw [hlen']; omega, fun _ => .inl (List.suffix_append _ _)⟩

/-- **Run lemma.**  The loop ends after as many rounds as it may make calls, and one. -/
theorem ensures_transfer {J : Nat → Wire → Prop} {transfer : Nat → Nat → WireProg (Nat × Bool)}
    (ht : Transfers results size J transfer) (h0 : J 0 w) (hfuel : 11 * size + 1 < fuel) :
    (Prog.loop fuel (transferRound size transfer) (0, 0)).Ensures (transport results)
      (fun _ w => ∃ total ≤ size, J total w) w fun status w' =>
        Delivered size J w.history status w' := by
  have hstart : LoopInv size J w.history [] (0, 0) w :=
    ⟨Nat.zero_le _, h0, Nat.zero_le _, fun _ => Nat.zero_le _, (List.append_nil _).symm,
      Nat.zero_le _, 0, Nat.zero_le _, List.nil_suffix⟩
  refine Prog.Ensures.loop (I := fun counters w' => ∃ calls, LoopInv size J w.history calls
      counters w')
    (μ := fun counters => 11 * size + 1 - (11 * counters.2 + counters.1)) ?_ ?_ ⟨[], hstart⟩
  · rintro counters w' ⟨calls, h⟩
    exact transferRound_step ht h
  · exact Nat.lt_of_le_of_lt (Nat.sub_le _ _) hfuel

/-! ### The two calls -/

/-- What has been sent: the first `total` bytes of `buf`, behind what was sent before. -/
def SentFrom (before : Wire) (buf : Bytes) (total : Nat) (w : Wire) : Prop :=
  w.output = before.output ++ buf.take total ∧ w.input = before.input ∧ w.buffer = before.buffer

/-- What has been received: the first `total` bytes of the stream are in the buffer. -/
def ReceivedFrom (before : Wire) (total : Nat) (w : Wire) : Prop :=
  w.buffer.take total = before.input.take total ∧ w.input = before.input.drop total ∧
    total ≤ before.input.length ∧ w.output = before.output

theorem sentFrom_zero (buf : Bytes) : SentFrom w buf 0 w := ⟨(List.append_nil _).symm, rfl, rfl⟩

theorem receivedFrom_zero : ReceivedFrom w 0 w := ⟨rfl, rfl, Nat.zero_le _, rfl⟩

/-- `send` takes some of the bytes that it is given, from the first one on. -/
theorem transfers_send (results : Nat → Result) (before : Wire) (buf : Bytes) :
    Transfers results buf.length (SentFrom before buf)
      (fun ptr n => send ((buf.drop ptr).take n)) := by
  intro total n w hn hle hw
  have hlen : ((buf.drop total).take n).length = n := by
    rw [List.length_take, List.length_drop]
    omega
  refine ⟨⟨total, by omega, hw⟩, ?_⟩
  show SentFrom _ _ (total + (transport results (.send _) w).1.1)
    (transport results (.send _) w).2 ∧ _
  cases hres : results w.history.length with
  | moved k =>
    rw [transport_send_moved hres, hlen]
    refine ⟨⟨?_, hw.2⟩, Nat.min_le_right _ _, _, rfl, .moved (by show 0 < min (k + 1) n; omega)⟩
    show w.output ++ ((buf.drop total).take n).take (k + 1) = _
    rw [hw.1, List.append_assoc, List.take_take, ← List.take_add]
  | stalled =>
    rw [transport_send_stalled hres]
    exact ⟨hw, Nat.zero_le _, _, rfl, .stalled⟩
  | fatal =>
    rw [transport_send_fatal hres]
    exact ⟨hw, Nat.zero_le _, _, rfl, .fatal⟩

/-- `recv` delivers some of the bytes that the peer has sent, from the first one on. -/
theorem transfers_recv (results : Nat → Result) (before : Wire) (size : Nat) :
    Transfers results size (ReceivedFrom before) (fun ptr n => recv ptr n) := by
  intro total n w hn hle hw
  obtain ⟨hbuf, hin, htotal, hout⟩ := hw
  refine ⟨⟨total, by omega, hbuf, hin, htotal, hout⟩, ?_⟩
  show ReceivedFrom _ (total + (transport results (.recv _ _) w).1.1)
    (transport results (.recv _ _) w).2 ∧ _
  cases hres : results w.history.length with
  | moved k =>
    rw [transport_recv_moved hres]
    by_cases hend : w.input.take (min (k + 1) n) = []
    · -- the stream has ended
      rw [if_pos hend]
      exact ⟨⟨hbuf, hin, htotal, hout⟩, Nat.zero_le _, _, rfl, .fatal⟩
    · rw [if_neg hend]
      have hpos := List.length_pos_iff.mpr hend
      obtain ⟨sz, hsz⟩ : ∃ sz, (w.input.take (min (k + 1) n)).length = sz := ⟨_, rfl⟩
      have hdata : w.input.take (min (k + 1) n) = (before.input.drop total).take sz := by
        rw [← hin, ← hsz, List.length_take]
        exact List.take_eq_take_min
      rw [hdata] at hpos ⊢
      have hlen : ((before.input.drop total).take sz).length = sz := by rw [← hdata, hsz]
      have htaken : (w.buffer.take total).length = total := by
        rw [hbuf, List.length_take]
        omega
      rw [List.length_take, hin, List.length_drop] at hsz
      rw [hlen] at hpos ⊢
      refine ⟨⟨?_, ?_, by show total + sz ≤ _; omega, hout⟩, by show sz ≤ n; omega, _, rfl,
        .moved hpos⟩
      · show (w.buffer.take total ++ (before.input.drop total).take sz).take (total + sz) = _
        rw [List.take_of_length_le (by rw [List.length_append, htaken, hlen]), hbuf,
          ← List.take_add]
      · show w.input.drop ((before.input.drop total).take sz).length = _
        rw [hlen, hin, List.drop_drop]
  | stalled =>
    rw [transport_recv_stalled hres]
    exact ⟨⟨hbuf, hin, htotal, hout⟩, Nat.zero_le _, _, rfl, .stalled⟩
  | fatal =>
    rw [transport_recv_fatal hres]
    exact ⟨⟨hbuf, hin, htotal, hout⟩, Nat.zero_le _, _, rfl, .fatal⟩

end Transport

/-- **The transport loops.**  For every sequence of results, `write_sock` and `read_sock` return
    within eleven calls for each byte and one.  At every call and at the end the bytes transferred
    are a prefix of the buffer, or of the incoming stream; they succeed exactly if all bytes were
    transferred, and fail only after a fatal result or eleven results without progress. -/
theorem transport_loops (results : Nat → Result) (buf : Bytes) (size : Nat) (w : Wire) (fuel : Nat)
    (hbuf : 11 * buf.length + 1 < fuel) (hsize : 11 * size + 1 < fuel) :
    (Transport.writeSock fuel buf).Ensures (transport results)
      (fun _ w' => ∃ total ≤ buf.length, Transport.SentFrom w buf total w') w
      (Transport.Delivered buf.length (Transport.SentFrom w buf) w.history) ∧
    (Transport.readSock fuel size).Ensures (transport results)
      (fun _ w' => ∃ total ≤ size, Transport.ReceivedFrom w total w') w
      (Transport.Delivered size (Transport.ReceivedFrom w) w.history) :=
  ⟨Transport.ensures_transfer (Transport.transfers_send results w buf)
      (Transport.sentFrom_zero buf) hbuf,
    Transport.ensures_transfer (Transport.transfers_recv results w size)
      Transport.receivedFrom_zero hsize⟩

/-- `transport_loops` for two bytes, with a transport that moves one byte at every second call. -/
theorem transport_loops_two :
    (Transport.writeSock 24 [1, 2]).Ensures
      (transport fun i => if i % 2 = 0 then .stalled else .moved 0)
      (fun _ w' => ∃ total ≤ 2, Transport.SentFrom ⟨[3, 4, 5], [], [], []⟩ [1, 2] total w')
      ⟨[3, 4, 5], [], [], []⟩
      (Transport.Delivered 2 (Transport.SentFrom ⟨[3, 4, 5], [], [], []⟩ [1, 2]) []) ∧
    (Transport.readSock 24 2).Ensures
      (transport fun i => if i % 2 = 0 then .stalled else .moved 0)
      (fun _ w' => ∃ total ≤ 2, Transport.ReceivedFrom ⟨[3, 4, 5], [], [], []⟩ total w')
      ⟨[3, 4, 5], [], [], []⟩
      (Transport.Delivered 2 (Transport.ReceivedFrom ⟨[3, 4, 5], [], [], []⟩) []) :=
  transport_loops _ [1, 2] 2 ⟨[3, 4, 5], [], [], []⟩ 24 (by decide) (by decide)

/-! ### The size field -/

/-- The number that bytes stand for, the most significant one first. -/
def bigEndian (bs : Bytes) : Nat := bs.foldl (fun n b => n * 256 + b.toNat) 0

/-- The number that eight bytes stand for in two's complement. -/
def twosComplement (bs : Bytes) : Int :=
  if bigEndian bs < 2 ^ 63 then bigEndian bs else (bigEndian bs : Int) - 2 ^ 64

theorem bigEndian_snoc (bs : Bytes) (b : UInt8) :
    bigEndian (bs ++ [b]) = bigEndian bs * 256 + b.toNat := by
  unfold bigEndian
  rw [List.foldl_append]
  rfl

theorem bigEndian_lt (bs : Bytes) : bigEndian bs < 256 ^ bs.length := by
  induction bs using List.reverseRecOn with
  | nil => exact Nat.one_pos
  | append_singleton bs b ih =>
    have hb := UInt8.toNat_lt b
    rw [bigEndian_snoc, List.length_append, List.length_singleton, pow_succ]
    omega

/-- What `read_size` computes, with its wrapping around put off to the end. -/
theorem sizeOfBytes_eq_bmod (bs : Bytes) :
    sizeOfBytes bs = Int.bmod (bigEndian bs : Int) (2 ^ 64) := by
  induction bs using List.reverseRecOn with
  | nil => rfl
  | append_singleton bs b ih =>
    have hstep : sizeOfBytes (bs ++ [b]) = Int.bmod (sizeOfBytes bs * 256 + b.toNat) (2 ^ 64) := by
      unfold sizeOfBytes
      rw [List.foldl_append]
      rfl
    have hcast : ((bigEndian bs * 256 + b.toNat : Nat) : Int) = bigEndian bs * 256 + b.toNat := by
      push_cast
      rfl
    rw [hstep, ih, bigEndian_snoc, hcast, Int.add_bmod, Int.mul_bmod, Int.bmod_bmod, ← Int.mul_bmod,
      ← Int.add_bmod]

/-- **Decoding.** -/
theorem sizeOfBytes_eq {bs : Bytes} (h : bs.length = 8) : sizeOfBytes bs = twosComplement bs := by
  have hlt := bigEndian_lt bs
  rw [h] at hlt
  rw [sizeOfBytes_eq_bmod, Int.bmod_def]
  unfold twosComplement
  have hmod : (bigEndian bs : Int) % ((2 ^ 64 : Nat) : Int) = bigEndian bs := by omega
  rw [hmod]
  split_ifs <;> omega

/-- **Encoding.**  The last bytes of a number do not depend on the multiple of `256 ^ k` in it. -/
theorem sizeBytes_bigEndian (bs : Bytes) (c : Int) :
    sizeBytes bs.length (bigEndian bs + c * 256 ^ bs.length) = bs := by
  induction bs using List.reverseRecOn generalizing c with
  | nil => rfl
  | append_singleton bs b ih =>
    have hb := UInt8.toNat_lt b
    have hsplit : (bigEndian (bs ++ [b]) : Int) + c * 256 ^ (bs.length + 1)
        = (bigEndian bs + c * 256 ^ bs.length) * 256 + b.toNat := by
      rw [bigEndian_snoc, pow_succ]
      push_cast
      ring
    have hdiv : ((bigEndian bs + c * 256 ^ bs.length) * 256 + (b.toNat : Int)) / 256
        = bigEndian bs + c * 256 ^ bs.length := by omega
    have hmod : (((bigEndian bs + c * 256 ^ bs.length) * 256 + (b.toNat : Int)) % 256).toNat
        = b.toNat := by omega
    rw [List.length_append, List.length_singleton, sizeBytes, hsplit, hdiv, hmod, ih c,
      UInt8.ofNat_toNat]

/-- Encoding what was decoded yields the same bytes. -/
theorem sizeBytes_sizeOfBytes {bs : Bytes} (h : bs.length = 8) :
    sizeBytes 8 (sizeOfBytes bs) = bs := by
  rw [sizeOfBytes_eq h]
  unfold twosComplement
  split_ifs
  · have hzero := sizeBytes_bigEndian bs 0
    rwa [h, zero_mul, add_zero] at hzero
  · have hone := sizeBytes_bigEndian bs (-1)
    rw [h] at hone
    exact hone

namespace Transport

variable {results : Nat → Result} {fuel : Nat} {w w' : Wire}

/-- `send_size` fails with the transport, or the field is on the wire. -/
theorem ensures_sendSize (results : Nat → Result) (w : Wire) (v : Int) (hfuel : 11 * 8 + 1 < fuel) :
    (sendSize fuel v).Ensures (transport results) (fun _ _ => True) w fun status w' =>
      (status = .failure ∧ Delivered 8 (SentFrom w (sizeBytes 8 v)) w.history .failure w') ∨
      (status = .success ∧ w'.output = w.output ++ sizeBytes 8 v) := by
  have hlen := length_sizeBytes 8 v
  have hsend := ensures_transfer (transfers_send results w (sizeBytes 8 v))
    (sentFrom_zero (sizeBytes 8 v)) (by rw [hlen]; exact hfuel)
  rw [hlen] at hsend
  refine (hsend.weaken fun _ _ _ => trivial).mono ?_
  rintro status w' hdone
  cases status with
  | failure => exact .inl ⟨rfl, hdone⟩
  | success =>
    obtain ⟨total, -, hsent, hall⟩ := hdone.done
    have hwhole : (sizeBytes 8 v).take total = sizeBytes 8 v :=
      List.take_of_length_le (by rw [hlen, hall.mp rfl])
    refine .inr ⟨rfl, ?_⟩
    rw [hsent.1, hwhole]

/-- `read_size` fails with the transport, or returns the value of the next eight bytes. -/
theorem ensures_readSize (results : Nat → Result) (w : Wire) (hfuel : 11 * 8 + 1 < fuel) :
    (readSize fuel).Ensures (transport results) (fun _ _ => True) w fun got w' =>
      (got = none ∧ Delivered 8 (ReceivedFrom w) w.history .failure w') ∨
      (got = some (sizeOfBytes (w.input.take 8)) ∧ w'.input = w.input.drop 8 ∧
        8 ≤ w.input.length) := by
  have hread := ensures_transfer (transfers_recv results w 8) receivedFrom_zero hfuel
  refine (hread.weaken fun _ _ _ => trivial).bind ?_
  rintro status w1 hdone
  cases status with
  | failure => exact .inl ⟨rfl, hdone⟩
  | success =>
    obtain ⟨total, -, ⟨hbuf, hin, hle, -⟩, hall⟩ := hdone.done
    rw [hall.mp rfl] at hbuf hin hle
    exact ⟨trivial, .inr ⟨by rw [← hbuf]; rfl, hin, hle⟩⟩

end Transport

/-- **The size field.**  However the transport splits the bytes of the field, as long as it does not
    fail: a size that is sent is eight bytes on the wire whose value is the size; reading eight
    bytes yields their value and takes nothing else; and sending what was read yields the same
    bytes. -/
theorem sizeField_codec (results results' : Nat → Result) (fuel : Nat) (hfuel : 11 * 8 + 1 < fuel) :
    (∀ v : Int, -2 ^ 63 ≤ v → v < 2 ^ 63 → ∃ field, field.length = 8 ∧ twosComplement field = v ∧
      ∀ w : Wire, ∃ status w',
        (Transport.sendSize fuel v).run (transport results) w = (some status, w') ∧
          ((status = .failure ∧
              Transport.Delivered 8 (Transport.SentFrom w field) w.history .failure w') ∨
            (status = .success ∧ w'.output = w.output ++ field))) ∧
    (∀ (field rest : Bytes) (r : Wire), field.length = 8 → r.input = field ++ rest → ∃ got r',
      (Transport.readSize fuel).run (transport results') r = (some got, r') ∧
        ((got = none ∧ Transport.Delivered 8 (Transport.ReceivedFrom r) r.history .failure r') ∨
          (got = some (twosComplement field) ∧ r'.input = rest))) ∧
    (∀ (r r' w : Wire) (x : Int),
      (Transport.readSize fuel).run (transport results') r = (some (some x), r') → ∃ status w',
        (Transport.sendSize fuel x).run (transport results) w = (some status, w') ∧
          ((status = .failure ∧
              Transport.Delivered 8 (Transport.SentFrom w (r.input.take 8)) w.history .failure w') ∨
            (status = .success ∧ w'.output = w.output ++ r.input.take 8))) := by
  refine ⟨fun v hlo hhi => ?_, fun field rest r hlen hin => ?_, fun r r' w x hread => ?_⟩
  · refine ⟨sizeBytes 8 v, length_sizeBytes 8 v, ?_, fun w => ?_⟩
    · rw [← sizeOfBytes_eq (length_sizeBytes 8 v)]
      exact sizeOfBytes_sizeBytes hlo hhi
    · exact (Transport.ensures_sendSize results w v hfuel).run
  · obtain ⟨got, r', hrun, hgot⟩ := (Transport.ensures_readSize results' r hfuel).run
    rw [hin, List.take_left' hlen, List.drop_left' hlen, sizeOfBytes_eq hlen] at hgot
    exact ⟨got, r', hrun, hgot.imp_right fun h => ⟨h.1, h.2.1⟩⟩
  · rcases (Transport.ensures_readSize results' r hfuel).of_run hread with ⟨hx, -⟩ | ⟨hx, -, hlen⟩
    · cases hx
    have hfield : (r.input.take 8).length = 8 := by
      rw [List.length_take]
      omega
    have hbytes : sizeBytes 8 x = r.input.take 8 := by
      rw [Option.some.inj hx, sizeBytes_sizeOfBytes hfield]
    rw [← hbytes]
    exact (Transport.ensures_sendSize results w x hfuel).run

/-- `sizeField_codec` for -1, over a transport that stalls at every second call and does not
    fail. -/
theorem sizeField_codec_minus_one : ∃ field w', field.length = 8 ∧ twosComplement field = -1 ∧
    (Transport.sendSize 100 (-1)).run
      (transport fun i => if i % 2 = 0 then .stalled else .moved 2) ⟨[], [], [], []⟩
      = (some .success, w') ∧ w'.output = [] ++ field := by
  obtain ⟨field, hlen, hvalue, hsend⟩ := (sizeField_codec
    (fun i => if i % 2 = 0 then .stalled else .moved 2) (fun _ => .moved 0) 100 (by decide)).1
    (-1) (by decide) (by decide)
  obtain ⟨status, w', hrun, hend⟩ := hsend ⟨[], [], [], []⟩
  have hstatus : status = .success := by
    have hran : ((Transport.sendSize 100 (-1)).run (transport fun i =>
        if i % 2 = 0 then .stalled else .moved 2) ⟨[], [], [], []⟩).1 = some .success := by
      decide +kernel
    rw [hrun] at hran
    exact Option.some.inj hran
  rcases hend with ⟨hfailed, -⟩ | ⟨-, hout⟩
  · rw [hstatus] at hfailed
    cases hfailed
  · exact ⟨field, w', hlen, hvalue, hstatus ▸ hrun, hout⟩

/-! ### The calls of a session -/

/-- **Refinement.**  Whatever the transport does, the call of a session behaves like `write_sock`
    for some entry of its oracle. -/
theorem writeSock_refines (results : Nat → Result) (data : Bytes) (w : Wire) {fuel : Nat}
    (hfuel : 11 * data.length + 1 < fuel) : ∃ status w',
      (Transport.writeSock fuel data).run (transport results) w = (some status, w') ∧
        ∃ entry, ∀ l : Session, l.closed = false → l.oracle.write l.calls = entry →
          l.output = w.output → Status.ofBool (l.writeSock data).1 = status ∧
            (l.writeSock data).2.output = w'.output := by
  obtain ⟨status, w', hrun, hdone⟩ := (Transport.ensures_transfer
    (Transport.transfers_send results w data) (Transport.sentFrom_zero data) hfuel).run
  obtain ⟨total, hle, ⟨hout, -⟩, hall⟩ := hdone.done
  refine ⟨status, w', hrun, ?_⟩
  cases status with
  | success =>
    rw [hall.mp rfl, List.take_length] at hout
    refine ⟨none, fun l hc hw hl => ?_⟩
    rw [l.writeSock_ok hc hw, hout, ← hl]
    exact ⟨rfl, rfl⟩
  | failure =>
    have hlt : total < data.length := lt_of_le_of_ne hle fun e => by
      have := hall.mpr e
      cases this
    have hne : data ≠ [] := fun e => by
      rw [e] at hlt
      exact absurd hlt (Nat.not_lt_zero _)
    have hmin : min total (data.length - 1) = total := by omega
    refine ⟨some total, fun l hc hw hl => ?_⟩
    unfold Session.writeSock
    rw [if_neg hne, hc, hw, hout, ← hl]
    exact ⟨rfl, by show l.output ++ data.take (min total (data.length - 1)) = _; rw [hmin]⟩

/-- **Refinement.**  The call of a session succeeds like `read_sock` for some entry of its oracle,
    with the same bytes. -/
theorem readSock_refines (results : Nat → Result) (size : Nat) (w : Wire) {fuel : Nat}
    (hfuel : 11 * size + 1 < fuel) : ∃ status w',
      (Transport.readSock fuel size).run (transport results) w = (some status, w') ∧
        ∃ entry, ∀ l : Session, l.closed = false → l.oracle.read l.calls = entry →
          l.input = w.input →
            (l.readSock size).1 = (if status = .success then some (w'.buffer.take size) else none) ∧
              (status = .success → (l.readSock size).2.input = w'.input) := by
  obtain ⟨status, w', hrun, hdone⟩ := (Transport.ensures_transfer
    (Transport.transfers_recv results w size) Transport.receivedFrom_zero hfuel).run
  obtain ⟨total, hle, ⟨hbuf, hin, hlen, -⟩, hall⟩ := hdone.done
  refine ⟨status, w', hrun, ?_⟩
  cases status with
  | success =>
    rw [hall.mp rfl] at hbuf hin hlen
    refine ⟨false, fun l hc hr hl => ?_⟩
    rw [l.readSock_ok hc hr (by rw [hl]; exact hlen), if_pos rfl, hbuf, hl]
    exact ⟨rfl, fun _ => hin.symm⟩
  | failure =>
    have hlt : total < size := lt_of_le_of_ne hle fun e => by
      have := hall.mpr e
      cases this
    refine ⟨true, fun l hc hr hl => ?_⟩
    unfold Session.readSock
    rw [if_neg (by omega), if_pos (.inr hr)]
    exact ⟨rfl, fun h => by cases h⟩

end ClipShare
