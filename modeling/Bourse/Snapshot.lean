import Bourse.Wire.Snapshot

/-!
# Snapshot files

A snapshot is kept in a file. Where there is no file there is no snapshot, which is not an error; a
file that cannot be read or written, and a text that is no snapshot, are.
-/

namespace Bourse

/-- What stands at the place where a snapshot is kept. -/
inductive SnapshotPlace where
  /-- There is nothing, and a file can be made. -/
  | empty
  /-- There is a file with a text. -/
  | file (text : String)
  /-- There is something that is no file. -/
  | directory
  /-- There is nothing, and no file can be made. -/
  | unreachable

/-- Why a snapshot cannot be loaded or saved. -/
inductive SnapshotError where
  /-- The file cannot be read or written. -/
  | io
  /-- The text is no snapshot. -/
  | encoding (flaw : Json.Flaw)
  deriving DecidableEq

namespace SnapshotPlace

/-- Loads the snapshot, if there is one. -/
def load : SnapshotPlace → Except SnapshotError (Option Snapshot)
  | .empty => .ok none
  | .unreachable => .ok none
  | .directory => .error .io
  | .file text =>
    match Snapshot.ofText text with
    | .ok s => .ok (some s)
    | .error flaw => .error (.encoding flaw)

/-- Saves a snapshot over what stands there. -/
def save (s : Snapshot) : SnapshotPlace → Except SnapshotError SnapshotPlace
  | .empty => .ok (.file s.toText)
  | .file _ => .ok (.file s.toText)
  | .directory => .error .io
  | .unreachable => .error .io

end SnapshotPlace

end Bourse
