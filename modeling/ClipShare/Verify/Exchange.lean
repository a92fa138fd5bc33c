import ClipShare.Server.Versions
import ClipShare.Interaction.Contract
import Mathlib.Computability.Language
import Mathlib.Order.CompletePartialOrder

namespace ClipShare

open Interaction Posix

/-!
# What a program sends

A logic for the bytes that a program sends on its connection.  The words it may send form a
**language**; a program that succeeds sends a whole word, any other a prefix of one.

* `OffSocket` — programs that leave the connection alone;
* `quiet` — the contract of a program that neither reads nor writes once it has closed the socket,
  and `Sat.quietTrace`, what it says about the calls of a run;
* `Sends` — the judgement, with a rule for each way in which programs are put together;
* `Quits` — programs that end without sending anything or succeeding.
-/

/-! ### Programs that leave the connection alone -/

/-- No call is on the socket. -/
def OffSocket {α : Type} (p : Proc α) : Prop := p.Only (fun c : Call => c.onSocket = false)

theorem OffSocket.ret {α : Type} (a : α) : OffSocket (.ret a : Proc α) := trivial

theorem OffSocket.spin {α : Type} : OffSocket (.spin : Proc α) := trivial

theorem OffSocket.ask {α : Type} {c : Call} (hc : c.onSocket = false) (g : c.Resp → α) :
    OffSocket (Prog.ask (S := Calls) c g) := ⟨hc, fun _ => trivial⟩

theorem OffSocket.bind {α β : Type} {p : Proc α} {f : α → Proc β} (hp : OffSocket p)
    (hf : ∀ a, OffSocket (f a)) : OffSocket (p >>= f) := Prog.Only.bind hp hf

/-- Bytes are exchanged with the client. -/
def Call.exchanges : Call → Bool
  | .readSock _ | .writeSock _ => true
  | _ => false

/-- The socket gets closed. -/
def Call.closes : Call → Bool
  | .closeSocket _ _ => true
  | _ => false

/-- Nobody else takes steps, and bytes are only exchanged on an open socket. -/
def quiet : Contract Calls Session Host :=
  .alone fun c s _ => c.exchanges = true → s.1.closed = false

/-- The rule for programs that leave the connection alone. -/
theorem OffSocket.sat {α : Type} {p : Proc α} (hp : OffSocket p) (l : Session) (h : Host) :
    p.Sat respond quiet l h (fun _ l' _ => l.SameSocket l') := by
  induction p generalizing l h with
  | ret a => exact ⟨rfl, rfl, rfl, rfl⟩
  | spin => exact ⟨rfl, rfl, rfl, rfl⟩
  | call c k ih =>
    rintro h' rfl
    have hc : c.onSocket = false := hp.1
    have hsame : l.SameSocket (respond c (l, h)).2.1 := respond_sameSocket hc l h
    refine ⟨fun he => ?_, (ih _ (hp.2 _) _ _).mono fun _ l' _ hl' => ?_⟩
    · cases c <;> simp [Call.exchanges, Call.onSocket] at he hc
    · exact hsame.trans hl'

/-! ### No exchange after closing -/

/-- In a list of calls, nothing is exchanged once the socket is closed. -/
def QuietTrace : Bool → List (Event Calls) → Prop
  | _, [] => True
  | closed, e :: t =>
      (e.1.exchanges = true → closed = false) ∧ QuietTrace (closed || e.1.closes) t

/-- Only closing closes the socket, and nothing opens it again. -/
theorem respond_closed (c : Call) (l : Session) (h : Host) :
    (respond c (l, h)).2.1.closed = (l.closed || c.closes) := by
  by_cases hc : c.onSocket = false
  · have hsame := (respond_sameSocket hc l h).2.2.1
    rw [hsame]
    cases c <;> simp [Call.closes, Call.onSocket] at hc ⊢
  · cases c with
    | readSock n =>
      rw [respond_readSock]
      simp only [Session.readSock, Call.closes, Bool.or_false]
      split_ifs <;> rfl
    | writeSock data =>
      rw [respond_writeSock]
      simp only [Session.writeSock, Call.closes, Bool.or_false]
      split_ifs
      · rfl
      · rfl
      · split <;> rfl
    | closeSocket await shutdown =>
      rw [respond_closeSocket]
      simp only [Session.closeSocket, Call.closes, Bool.or_true]
      split
      · assumption
      · rfl
    | _ => exact absurd rfl hc

/-- **Run lemma.**  The run of a program that keeps the contract is quiet. -/
theorem Sat.quietTrace {α : Type} {p : Proc α} {l : Session} {h : Host}
    {Q : Option α → Session → Host → Prop} (hp : p.Sat respond quiet l h Q) :
    QuietTrace l.closed (p.trace respond (l, h)) := by
  induction p generalizing l h with
  | ret a => trivial
  | spin => trivial
  | call c k ih =>
    have hcall := hp h rfl
    refine ⟨hcall.1, ?_⟩
    rw [← respond_closed c l h]
    exact ih _ hcall.2

/-! ### The judgement -/

/-- What has been sent when a program ends: a word if it succeeds, else a prefix of one. -/
def Outcome (L : Language UInt8) : Option Status → Bytes → Prop
  | some .success, w => w ∈ L
  | _, w => ∃ v, w ++ v ∈ L

/-- The session after sending as the language says; after a success the socket is still open if
    it has to stay so. -/
structure Sent (stays : Bool) (L : Language UInt8) (l : Session) (a : Option Status)
    (l' : Session) : Prop where
  oracle : l'.oracle = l.oracle
  opened : stays = true → a = some .success → l'.closed = false
  words : ∃ w, l'.output = l.output ++ w ∧ Outcome L a w

/-- No write fails. -/
def Session.Writable (l : Session) : Prop := ∀ k, l.oracle.write k = none

/-- **The judgement.**  On an open connection whose writes never fail, the program sends a word of
    the language if it succeeds and a prefix of one if it does not. -/
def Sends (stays : Bool) (h : Host) (p : Proc Status) (L : Language UInt8) : Prop :=
  ∀ l : Session, l.closed = false → l.Writable →
    p.Sat respond quiet l h (fun a l' _ => Sent stays L l a l')

/-- The program does not succeed and sends nothing, be the socket open or closed. -/
def Quits (p : Proc Status) : Prop :=
  ∀ l h, p.Sat respond quiet l h
    (fun a l' _ => a ≠ some .success ∧ l'.oracle = l.oracle ∧ l'.output = l.output)

variable {stays : Bool} {h : Host} {p : Proc Status} {L L' : Language UInt8}

theorem Outcome.of_mem {a : Option Status} {w : Bytes} (hw : w ∈ L) : Outcome L a w := by
  rcases a with _ | _ | _
  · exact ⟨[], (List.append_nil w).symm ▸ hw⟩
  · exact hw
  · exact ⟨[], (List.append_nil w).symm ▸ hw⟩

/-- Every outcome is a prefix of a word. -/
theorem Outcome.exists_append {a : Option Status} {w : Bytes} (hw : Outcome L a w) :
    ∃ v, w ++ v ∈ L := by
  rcases a with _ | _ | _
  · exact hw
  · exact ⟨[], (List.append_nil w).symm ▸ hw⟩
  · exact hw

/-- An outcome behind a word of another language. -/
theorem Outcome.append {a : Option Status} {u w : Bytes} (hu : u ∈ L) (hw : Outcome L' a w) :
    Outcome (L * L') a (u ++ w) := by
  have hmul : ∀ v, v ∈ L' → u ++ v ∈ L * L' := fun v hv => Language.append_mem_mul hu hv
  rcases a with _ | _ | _
  · obtain ⟨v, hv⟩ := hw
    exact ⟨v, List.append_assoc u w v ▸ hmul _ hv⟩
  · exact hmul w hw
  · obtain ⟨v, hv⟩ := hw
    exact ⟨v, List.append_assoc u w v ▸ hmul _ hv⟩

theorem Outcome.mono {a : Option Status} {w : Bytes} (hL : L ≤ L') (hw : Outcome L a w) :
    Outcome L' a w := by
  rcases a with _ | _ | _
  · obtain ⟨v, hv⟩ := hw
    exact ⟨v, hL hv⟩
  · exact hL hw
  · obtain ⟨v, hv⟩ := hw
    exact ⟨v, hL hv⟩

namespace Sends

/-- A larger language. -/
theorem mono (hp : Sends stays h p L) (hL : L ≤ L') : Sends stays h p L' := by
  intro l hopen hw
  refine (hp l hopen hw).mono fun a l' _ hsent => ?_
  obtain ⟨w, hout, hword⟩ := hsent.words
  exact ⟨hsent.oracle, hsent.opened, w, hout, hword.mono hL⟩

/-- A program that ends with success has sent the empty word. -/
theorem success (hL : [] ∈ L) : Sends stays h (.ret .success) L := fun _ hopen _ =>
  ⟨rfl, fun _ _ => hopen, [], (List.append_nil _).symm, hL⟩

/-- What quits sends a prefix of anything. -/
theorem quit (hp : Quits p) (hL : ∃ v, v ∈ L) : Sends stays h p L := by
  intro l _ _
  refine (hp l h).mono fun a l' _ ⟨ha, horacle, hout⟩ => ?_
  refine ⟨horacle, fun _ hs => absurd hs ha, [], by rw [hout, List.append_nil], ?_⟩
  rcases a with _ | _ | _
  · exact hL
  · exact absurd rfl ha
  · exact hL

/-- Writing comes first: the data, and then what the rest sends. -/
theorem write {data : Bytes} {k : Bool → Proc Status} (hk : Sends stays h (k true) L) :
    Sends stays h (.call (.writeSock data) k) ({data} * L) := by
  rintro l hopen hw h' rfl
  have hwrite := @Session.writeSock_ok l data hopen (hw l.calls)
  rw [respond_writeSock, hwrite]
  refine ⟨fun _ => hopen, (hk { l.tick with output := l.output ++ data } hopen hw).mono ?_⟩
  intro a l' _ hsent
  obtain ⟨w, hout, hword⟩ := hsent.words
  refine ⟨hsent.oracle, hsent.opened, data ++ w, ?_, hword.append (Set.mem_singleton data)⟩
  rw [hout, List.append_assoc]

/-- Reading sends nothing. -/
theorem read {n : Nat} {k : Option Bytes → Proc Status} (hk : ∀ r, Sends stays h (k r) L) :
    Sends stays h (.call (.readSock n) k) L := by
  rintro l hopen hw h' rfl
  have hclosed := respond_closed (.readSock n) l h
  rw [respond_readSock] at hclosed ⊢
  have horacle : (l.readSock n).2.oracle = l.oracle := by
    unfold Session.readSock
    split_ifs <;> rfl
  have hopen' : (l.readSock n).2.closed = false := by rw [hclosed, hopen]; rfl
  refine ⟨fun _ => hopen, (hk _ _ hopen' fun k => ?_).mono fun a l' _ hsent => ?_⟩
  · rw [horacle]; exact hw k
  · obtain ⟨w, hout, hword⟩ := hsent.words
    exact ⟨hsent.oracle.trans horacle, hsent.opened, w, by rw [hout, Session.readSock_output],
      hword⟩

/-- A call that is not on the socket. -/
theorem call {c : Call} {k : c.Resp → Proc Status} (hc : c.onSocket = false)
    (hk : ∀ l : Session, Sends stays (respond c (l, h)).2.2 (k (respond c (l, h)).1) L) :
    Sends stays h (.call c k) L := by
  rintro l hopen hw h' rfl
  obtain ⟨-, hout, hclosed, horacle⟩ := respond_sameSocket hc l h
  refine ⟨fun _ => hopen, (hk l _ (hclosed.trans hopen) fun k => ?_).mono fun a l' _ hsent => ?_⟩
  · rw [horacle]; exact hw k
  · obtain ⟨w, hout', hword⟩ := hsent.words
    exact ⟨hsent.oracle.trans horacle, hsent.opened, w, by rw [hout', hout], hword⟩

/-- A program that leaves the connection alone comes first. -/
theorem offSocket {α : Type} {p : Proc α} {f : α → Proc Status} (hp : OffSocket p)
    (hf : ∀ a h', Sends stays h' (f a) L) (hL : ∃ v, v ∈ L) : Sends stays h (p >>= f) L := by
  intro l hopen hw
  refine (hp.sat l h).bind (fun a l' h' hsame => ?_) fun l' h' hsame => ?_
  · obtain ⟨-, hout, hclosed, horacle⟩ := hsame
    refine (hf a h' l' (hclosed.trans hopen) fun k => ?_).mono fun _ _ _ hsent => ?_
    · rw [horacle]; exact hw k
    · obtain ⟨w, hout', hword⟩ := hsent.words
      exact ⟨hsent.oracle.trans horacle, hsent.opened, w, by rw [hout', hout], hword⟩
  · exact ⟨hsame.2.2.2, nofun, [], by rw [hsame.2.1, List.append_nil], hL⟩

/-- **Sequencing.**  The second part runs if the first one succeeds, else the program quits. -/
theorem bind {f : Status → Proc Status} (hp : Sends true h p L) (hf : Quits (f .failure))
    (hs : ∀ h', Sends stays h' (f .success) L') (hL : ∃ v, v ∈ L') :
    Sends stays h (p >>= f) (L * L') := by
  obtain ⟨v', hv'⟩ := hL
  have hprefix : ∀ {a w}, Outcome L a w → ∃ v, w ++ v ∈ L * L' := by
    intro a w hw
    obtain ⟨v, hv⟩ := hw.exists_append
    exact ⟨v ++ v', by rw [← List.append_assoc]; exact Language.append_mem_mul hv hv'⟩
  intro l hopen hw
  refine (hp l hopen hw).bind (fun a l' h' hsent => ?_) fun l' h' hsent => ?_
  · obtain ⟨w, hout, hword⟩ := hsent.words
    cases a with
    | success =>
      have hw' : l'.Writable := fun k => by rw [hsent.oracle]; exact hw k
      refine (hs h' l' (hsent.opened rfl rfl) hw').mono fun a l2 _ hsent2 => ?_
      obtain ⟨w2, hout2, hword2⟩ := hsent2.words
      refine ⟨hsent2.oracle.trans hsent.oracle, hsent2.opened, w ++ w2, ?_, ?_⟩
      · rw [hout2, hout, List.append_assoc]
      · exact Outcome.append hword hword2
    | failure =>
      refine (hf l' h').mono fun a l2 _ ⟨ha, horacle, hout2⟩ => ?_
      refine ⟨horacle.trans hsent.oracle, fun _ hs => absurd hs ha, w, hout2.trans hout, ?_⟩
      rcases a with _ | _ | _
      · exact hprefix hword
      · exact absurd rfl ha
      · exact hprefix hword
  · obtain ⟨w, hout, hword⟩ := hsent.words
    exact ⟨hsent.oracle, nofun, w, hout, hprefix hword⟩

end Sends

/-! ### Ends of programs -/

theorem closeSocket_same (l : Session) (await : Bool) :
    (l.closeSocket await).oracle = l.oracle ∧ (l.closeSocket await).output = l.output := by
  unfold Session.closeSocket
  split <;> exact ⟨rfl, rfl⟩

theorem quits_failure : Quits (.ret .failure) := fun _ _ => ⟨nofun, rfl, rfl⟩

theorem quits_spin : Quits .spin := fun _ _ => ⟨nofun, rfl, rfl⟩

/-- Closing the socket before quitting. -/
theorem Quits.close {await shutdown : Bool} {q : Proc Status} (hq : Quits q) :
    Quits (.call (.closeSocket await shutdown) fun _ => q) := by
  rintro l h h' rfl
  rw [respond_closeSocket]
  refine ⟨nofun, (hq _ _).mono fun a l' _ ⟨ha, horacle, hout⟩ => ⟨ha, ?_, ?_⟩⟩
  · rw [horacle, (closeSocket_same l await).1]
  · rw [hout, (closeSocket_same l await).2]

/-- Work that is done off the socket before quitting. -/
theorem Quits.offSocket {α : Type} {p : Proc α} {f : α → Proc Status} (hp : OffSocket p)
    (hf : ∀ a, Quits (f a)) : Quits (p >>= f) := by
  intro l h
  refine (hp.sat l h).bind (fun a l' h' hsame => ?_) fun l' h' hsame => ?_
  · refine (hf a l' h').mono fun _ _ _ ⟨ha, horacle, hout⟩ => ⟨ha, ?_, ?_⟩
    · rw [horacle, hsame.2.2.2]
    · rw [hout, hsame.2.1]
  · exact ⟨nofun, hsame.2.2.2, hsame.2.1⟩

/-- A method that closes the socket and goes on without it. -/
theorem Sends.close {await shutdown : Bool} {q : Proc Status} (hq : OffSocket q) (hL : [] ∈ L) :
    Sends false h (.call (.closeSocket await shutdown) fun _ => q) L := by
  rintro l hopen hw h' rfl
  rw [respond_closeSocket]
  refine ⟨nofun, (hq.sat _ _).mono fun a l' _ hsame => ⟨?_, nofun, [], ?_, .of_mem hL⟩⟩
  · rw [hsame.2.2.2, (closeSocket_same l await).1]
  · rw [hsame.2.1, (closeSocket_same l await).2, List.append_nil]

/-! ### Functions that leave the connection alone -/

namespace OffSocket

theorem fileExists (fileName : Bytes) : OffSocket (fileExists fileName) := by
  unfold ClipShare.fileExists
  split
  · exact .ret _
  · exact .ask rfl _

theorem isDirectory (path : Bytes) : OffSocket (isDirectory path) := by
  unfold ClipShare.isDirectory
  split
  · exact .ret _
  · refine .bind (.ask rfl _) ?_
    rintro (_ | _ | _ | _) <;> exact .ret _

theorem mkdirCheck (path : Bytes) : OffSocket (mkdirCheck path) := by
  refine .bind (fileExists path) fun b => ?_
  split
  · refine .bind (isDirectory path) fun d => ?_
    split <;> exact .ret _
  · exact .bind (.ask rfl _) fun _ => .ret _

theorem mkdirsLoop (done rest : Bytes) : OffSocket (mkdirsLoop done rest) := by
  induction rest generalizing done with
  | nil => exact mkdirCheck done
  | cons c rest ih =>
    unfold ClipShare.mkdirsLoop
    split
    · refine .bind (mkdirCheck done) ?_
      rintro (_ | _)
      · exact ih _
      · exact .ret _
    · exact ih _

theorem mkdirs (dirPath : Bytes) : OffSocket (mkdirs dirPath) := by
  unfold ClipShare.mkdirs
  split
  · exact .ret _
  · refine .bind (fileExists dirPath) fun b => ?_
    split
    · refine .bind (isDirectory dirPath) fun d => ?_
      split <;> exact .ret _
    · split
      · exact .bind (.ask rfl _) fun _ => .ret _
      · exact mkdirsLoop [] dirPath

theorem xclipOut (target : Option Bytes) : OffSocket (xclipOut target) := by
  refine .bind (.ask rfl _) ?_
  rintro (_ | buf)
  · exact .ret _
  · dsimp only
    split <;> exact .ret _

theorem xclipTargets : OffSocket xclipTargets := by
  refine .bind (.ask rfl _) ?_
  rintro (_ | ⟨targets, behind⟩)
  · exact .ret _
  · dsimp only
    split <;> exact .ret _

theorem getCopiedType : OffSocket getCopiedType := by
  refine .bind xclipTargets ?_
  rintro (_ | ⟨targets, behind⟩) <;> exact .ret _

theorem getImage (env : Env) (mode : ImageMode) (disp : UInt16) :
    OffSocket (getImage env mode disp) := by
  have hshot : OffSocket (do
      let shot ← screenshotUtil (chosenDisplay env disp)
      return properImage shot : Proc (Option Bytes)) := .bind (.ask rfl _) fun _ => .ret _
  unfold ClipShare.getImage
  cases mode with
  | screenOnly => exact hshot
  | copiedOnly =>
    refine .bind (.ask rfl _) fun copied => ?_
    dsimp only
    cases properImage copied <;> exact .ret _
  | any =>
    refine .bind (.ask rfl _) fun copied => ?_
    dsimp only
    cases properImage copied with
    | some buf => exact .ret _
    | none => exact hshot

theorem getCopiedFilesAsStr : OffSocket getCopiedFilesAsStr := by
  refine .bind xclipTargets ?_
  rintro (_ | ⟨targets, behind⟩)
  · exact .ret _
  · dsimp only
    split
    · exact .ret _
    · refine .bind (xclipOut _) ?_
      rintro (_ | fnames)
      · exact .ret _
      · dsimp only
        split
        · exact .ret _
        · exact .ret _
        · split <;> exact .ret _

theorem copiedFilesLoop (cnt : Nat) (buf : Bytes) : OffSocket (copiedFilesLoop cnt buf) := by
  induction cnt generalizing buf with
  | zero => exact .ret _
  | succ cnt ih =>
    unfold ClipShare.copiedFilesLoop
    dsimp only
    split
    · exact .ret _
    · refine .bind (.ask rfl _) ?_
      rintro (_ | _ | _ | _)
      · exact ih _
      · exact ih _
      · exact .bind (ih _) fun _ => .ret _
      · exact ih _

theorem getCopiedFiles : OffSocket getCopiedFiles := by
  refine .bind getCopiedFilesAsStr ?_
  rintro (_ | filePath)
  · exact .ret _
  · dsimp only
    split
    · exact .ret _
    · exact .bind (copiedFilesLoop _ _) fun _ => .ret _

theorem recurseEntries {process : Bytes → Proc (List Bytes)}
    (hp : ∀ path, OffSocket (process path)) (path : Bytes) (names : List Name) :
    OffSocket (recurseEntries process path names) := by
  induction names with
  | nil => exact .ret _
  | cons filename names ih =>
    unfold ClipShare.recurseEntries
    split
    · exact .bind (.ask rfl _) fun _ => .ret _
    · exact .bind (hp _) fun _ => .bind ih fun _ => .ret _

theorem processPath {recurse : Bytes → Proc (List Bytes)} (hr : ∀ path, OffSocket (recurse path))
    (path : Bytes) : OffSocket (processPath recurse path) := by
  refine .bind (.ask rfl _) ?_
  rintro (_ | _ | _ | _)
  · exact .ret _
  · exact hr path
  · exact .ret _
  · exact .ret _

theorem recurseDir (includeLeafDirs : Bool) (depth : Nat) (dirPath : Bytes) :
    OffSocket (recurseDir includeLeafDirs depth dirPath) := by
  induction depth generalizing dirPath with
  | zero => exact .ret _
  | succ depth ih =>
    refine .bind (.ask rfl _) ?_
    rintro (_ | names)
    · exact .ret _
    · dsimp only
      split
      · exact .bind (.ask rfl _) fun _ => .ret _
      · refine .bind (recurseEntries (processPath ih) _ _) fun r => ?_
        split <;> exact .ret _

theorem copiedPath (includeLeafDirs : Bool) (fname : Bytes) :
    OffSocket (copiedPath includeLeafDirs fname) := by
  refine .bind (.ask rfl _) ?_
  rintro (_ | _ | _ | _)
  · exact .ret _
  · exact recurseDir _ _ _
  · exact .ret _
  · exact .ret _

theorem copiedDirsFilesLoop (includeLeafDirs first : Bool) (cnt : Nat) (buf : Bytes) :
    OffSocket (copiedDirsFilesLoop includeLeafDirs first cnt buf) := by
  induction cnt generalizing first buf with
  | zero => exact .ret _
  | succ cnt ih =>
    unfold ClipShare.copiedDirsFilesLoop
    dsimp only
    split
    · exact .ret _
    · split
      · exact .ret _
      · exact .bind (copiedPath _ _) fun _ => .bind (ih _ _) fun _ => .ret _

theorem getCopiedDirsFiles (includeLeafDirs : Bool) :
    OffSocket (getCopiedDirsFiles includeLeafDirs) := by
  refine .bind getCopiedFilesAsStr ?_
  rintro (_ | filePath)
  · exact .ret _
  · dsimp only
    split
    · exact .ret _
    · exact copiedDirsFilesLoop _ _ _ _

theorem storeText (data : Bytes) : OffSocket (storeText data) := by
  unfold ClipShare.storeText
  split
  · exact .ret _
  · dsimp only
    split
    · exact .ret _
    · exact .bind (.bind (.ask rfl _) fun _ => .ret _) fun _ => .ret _

theorem freeName (size : Nat) (fileName : Bytes) (left : Nat) (tmp : Bytes) :
    OffSocket (freeName size fileName left tmp) := by
  induction left generalizing tmp with
  | zero =>
    refine .bind (fileExists tmp) fun b => ?_
    split <;> exact .ret _
  | succ left ih =>
    refine .bind (fileExists tmp) fun b => ?_
    split
    · split
      · exact .ret _
      · exact ih _
    · exact .ret _

theorem renameIfExists (env : Env) (fileName : Bytes) (maxLen : Nat) :
    OffSocket (renameIfExists env fileName maxLen) := by
  unfold ClipShare.renameIfExists
  split
  · exact .ret _
  · exact freeName _ _ _ _

theorem makeDirectories (path : Bytes) : OffSocket (makeDirectories path) := by
  unfold ClipShare.makeDirectories
  split
  · exact .ret _
  · exact mkdirs _

theorem checkAndRename (env : Env) (filename dirname : Bytes) :
    OffSocket (checkAndRename env filename dirname) := by
  unfold ClipShare.checkAndRename
  split
  · exact .bind (.ask rfl _) fun _ => .ret _
  · dsimp only
    split
    · exact .ret _
    · split
      · exact .ret _
      · refine .bind (freeName _ _ _ _) ?_
        rintro (_ | newPath)
        · exact .ret _
        · refine .bind (.ask rfl _) fun r => ?_
          split <;> exact .ret _

theorem moveFiles (env : Env) (tmpDir : Bytes) (files : List Name) :
    OffSocket (moveFiles env tmpDir files) := by
  induction files with
  | nil => exact .ret _
  | cons filename files ih =>
    refine .bind (checkAndRename _ _ _) fun newPath => .bind ih fun r => ?_
    dsimp only
    split <;> exact .ret _

theorem cutSentFiles (env : Env) (paths : List Bytes) : OffSocket (cutSentFiles env paths) := by
  unfold ClipShare.cutSentFiles
  split
  · exact .bind (.ask rfl _) fun _ => .ret _
  · exact .ret _

theorem cleanTempDir (env : Env) (tmpDir : Bytes) (files : List Name) :
    OffSocket (cleanTempDir env tmpDir files) := by
  refine .bind (moveFiles _ _ _) fun r => ?_
  dsimp only
  split
  · refine .bind (.ask rfl _) fun b => ?_
    split <;> exact .ret _
  · exact .ret _

theorem freeTempName (fuel : Nat) (id : UInt32) : OffSocket (freeTempName fuel id) := by
  induction fuel generalizing id with
  | zero => exact .spin
  | succ fuel ih =>
    unfold ClipShare.freeTempName
    split
    · exact .ret _
    · refine .bind (.ask rfl _) fun id' => .bind (fileExists _) fun b => ?_
      split
      · exact ih _
      · exact .ret _

theorem settleUpload (env : Env) (dirname : Bytes) (status : Status) :
    OffSocket (settleUpload env dirname status) := by
  refine .bind (.ask rfl _) ?_
  rintro (_ | files)
  · exact .spin
  · dsimp only
    split
    · exact .bind (.ask rfl _) fun _ => .ret _
    · cases status with
      | failure => exact .ret _
      | success =>
        refine .bind (cleanTempDir _ _ _) ?_
        rintro (_ | destFiles)
        · exact .ret _
        · exact cutSentFiles _ _

end OffSocket

end ClipShare
