import ClipShare.Server.World

namespace ClipShare

open Interaction Posix

/-!
# Symbolic links in the working directory

The tree of a `Host` has no symbolic links.  Here the working directory may have some besides its
other entries, and only the calls that open and write files may fail: `access` and `fopen` follow a
link, `remove` takes away the link itself.

* `LinkedHost` — a host and the links in its working directory;
* `respondLinked` — what the calls do;
* `respondLinked_of_no_links` — without links, and when nothing fails, that is what `respond` does.
-/

/-- A host with symbolic links in its working directory.  A link leads to a location, through all
    further links, or nowhere: in a loop, or through something that is no directory. -/
structure LinkedHost where
  host : Host
  link : Name → Option (Option Path)

namespace LinkedHost

variable (h : LinkedHost)

def withHost (host : Host) : LinkedHost := { h with host := host }

/-- The link that a path string names. -/
def linkAt (path : Bytes) : Option (Option Path) :=
  (FileSystem.entryOf h.host.cwd (h.host.locate path)).bind h.link

/-- `fopen` for writing at a location. -/
def openAt (p : Path) : Option (Nat × FileSystem) := do
  let n ← p.getLast?
  h.host.fs.createAt p.dropLast n

/-- `remove` of the link that a path string names. -/
def unlink (path : Bytes) : LinkedHost :=
  { h with link := fun n =>
      if h.host.cwd ++ [n] = h.host.locate path then none else h.link n }

/-- What a call does that comes to no link. -/
def execute (c : Call) (l : Session) : c.Resp × Session × LinkedHost :=
  ((ClipShare.execute c (l, h.host)).1, (ClipShare.execute c (l, h.host)).2.1,
    h.withHost (ClipShare.execute c (l, h.host)).2.2)

end LinkedHost

/-- What a call does if there may be links in the working directory, and no call to the file system
    fails but `fopen` and `fwrite`. -/
def respondLinked : Machine Calls (Session × LinkedHost)
  | .access path, (l, h) => match h.linkAt path with
      -- a link counts as a file if it leads to something
      | some target => ((target.bind h.host.fs.node).isSome, l.tick, h)
      | none => h.execute (.access path) l
  | .openWrite path, (l, h) =>
      if l.fault then (none, l.tick.release, h)
      else match h.linkAt path with
        -- the file is created where the link leads to
        | some target => match target.bind h.openAt with
            | some (ino, fs) => (some ino, l.tick.release, h.withHost (h.host.withFs fs))
            | none => (none, l.tick.release, h)
        | none => h.execute (.openWrite path) l
  | .remove path, (l, h) => match h.linkAt path with
      -- the link goes, and what it led to stays
      | some _ => (true, l.tick, h.unlink path)
      | none => h.execute (.remove path) l
  | c, (l, h) => h.execute c l

/-- Without links, and when nothing fails, the calls do what they do on the host. -/
theorem respondLinked_of_no_links {l : Session} {h : LinkedHost} (hlink : ∀ n, h.link n = none)
    (hfault : l.fault = false) (c : Call) :
    respondLinked c (l, h) = ((respond c (l, h.host)).1, (respond c (l, h.host)).2.1,
      h.withHost (respond c (l, h.host)).2.2) := by
  have hat : ∀ path, h.linkAt path = none := by
    intro path
    unfold LinkedHost.linkAt
    rw [Option.bind_eq_none_iff]
    exact fun n _ => hlink n
  rw [respond_of_fault_none hfault]
  cases c with
  | access path | remove path | openWrite path => simp only [respondLinked, hat, hfault]; rfl
  | _ => rfl

end ClipShare
