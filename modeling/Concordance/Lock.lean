import Concordance.Disk.Change
import Concordance.Roster

/-!
# Locks

An index has one writer at a time. Whoever changes it holds the lock of a file beside it, and a second
writer is refused at once.

The lock of a file is taken or free. Each writer remembers whether it holds the lock; it asks the file
only if it does not.
-/

namespace Concordance

/-- The lock of a file, and the writers that believe they hold it. -/
structure Lock (κ : Type) where
  taken : Bool := false
  holders : List κ := []
  deriving DecidableEq, Inhabited

/-- Why a lock is refused. -/
inductive LockRefusal where
  | alreadyHeld
  | heldElsewhere
  deriving DecidableEq, Inhabited

/-- The text of a refusal. -/
def LockRefusal.message (file : Path) : LockRefusal → String
  | .alreadyHeld => "Index lock already held: " ++ file.toText
  | .heldElsewhere => "Index is locked by another writer: " ++ file.toText

namespace Lock

variable {κ : Type} [DecidableEq κ]

/-- Whether a writer holds the lock. -/
def holds (l : Lock κ) (who : κ) : Bool := l.holders.contains who

/-- Takes the lock. -/
def acquire (l : Lock κ) (who : κ) : Except LockRefusal (Lock κ) :=
  if l.holds who then .error .alreadyHeld
  else if l.taken then .error .heldElsewhere
  else .ok ⟨true, who :: l.holders⟩

/-- Frees the lock, if the writer holds it. -/
def release (l : Lock κ) (who : κ) : Lock κ :=
  if l.holds who then ⟨false, l.holders.erase who⟩ else l

/-- What a writer does with a lock. -/
inductive Action where
  | acquire
  | release
  | hold
  deriving DecidableEq, Inhabited

/-- What an action gives: the lock after it, and for a `hold` the lock while it was held. -/
structure Result (κ : Type) where
  after : Lock κ
  inside : Option (Lock κ) := none
  refusal : Option LockRefusal := none

/-- Carries an action out. To hold a lock is to acquire it and to release it again. -/
def act (l : Lock κ) (who : κ) : Action → Result κ
  | .acquire =>
    match l.acquire who with
    | .ok after => { after }
    | .error r => { after := l, refusal := some r }
  | .release => { after := l.release who }
  | .hold =>
    match l.acquire who with
    | .ok inside => { after := inside.release who, inside := some inside }
    | .error r => { after := l, refusal := some r }

end Lock

/-- The file whose lock guards an index. -/
def lockFile (index : Path) : Path := index.withSuffix ".lock"

/-- A disk, and the locks of its files. -/
structure Host where
  disk : Disk := {}
  locks : Roster Path (Lock Nat) := .empty

/-- Why a writer does not get a lock: it is refused, or its file cannot be made. -/
inductive LockFault where
  | refused (refusal : LockRefusal)
  | blocked (fault : DiskFault)
  deriving DecidableEq, Inhabited

namespace Host

/-- The lock of a file. -/
def lockOf (h : Host) (file : Path) : Lock Nat := (h.locks.get? file).getD {}

/-- Makes the file of a lock, unless it is there. -/
def makeLockFile (d : Disk) (file : Path) : Except DiskFault Disk := do
  let d ← d.makeFolders file.parent.parts
  match d.entry? file.parts with
  | some (.file _) => return d
  | _ => d.write file.parts []

/-- Takes the lock of a file, which is made if it is missing. -/
def acquire (h : Host) (who : Nat) (file : Path) : Host × Except LockFault Unit :=
  let lock := h.lockOf file
  if lock.holds who then (h, .error (.refused .alreadyHeld))
  else match makeLockFile h.disk file with
    | .error f => (h, .error (.blocked f))
    | .ok disk =>
      match lock.acquire who with
      | .error r => ({ h with disk }, .error (.refused r))
      | .ok lock => ({ h with disk, locks := h.locks.put file lock }, .ok ())

/-- Frees the lock of a file, if the writer holds it. -/
def release (h : Host) (who : Nat) (file : Path) : Host :=
  { h with locks := h.locks.put file ((h.lockOf file).release who) }

end Host

end Concordance
