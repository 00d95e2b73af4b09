import Bourse.Http
import Bourse.Opening
import Bourse.Snapshot
import Std.Http

/-!
# The server

The exchange as a process that answers requests over HTTP. Its settings come from the environment.
The store is restored from the snapshot file, if one is named and there, and written back to it
when the process is interrupted. At regular intervals the book is matched and the queue of
settlements worked off.

Requests and ticks take the exchange in turns, and each is carried out without a break.
-/

open Std.Async

namespace Bourse.Server

/-- The time of the clock. -/
def readClock : IO Instant := do
  let t := Std.Time.PlainDateTime.ofWallTime
    (.ofDuration (← Std.Time.Timestamp.now).toDurationSinceUnixEpoch)
  let instant := Instant.ofFields? t.year.toInt t.month.toNat t.day.toNat t.hour.toNat
    t.minute.toNat t.second.toNat t.nanosecond.toNat
  return instant.getD .epoch

/-- A random name and the time of the clock. -/
def drawStamp : IO Stamp := do
  let bytes ← IO.getRandomBytes 16
  let bits := bytes.foldl (fun n b => 256 * n + b.toNat) 0
  return ⟨.ofRandomBits bits, ← readClock⟩

/-- Answers the calls of a piece of work one after the other, each with a stamp of its own. -/
def perform {α : Type} : Work α → Std.AtomicT Exchange IO α
  | .done a => return a
  | .call c next => do
    let stamp ← drawStamp
    let (reply, exchange) := Exchange.handler (fun _ => stamp) c (← get)
    set exchange
    perform (next reply)

/-- Carries out a task when it is its turn. -/
def runTask {ε α : Type} (exchange : Std.Mutex Exchange) (t : Task ε α) : IO (Except ε α) := do
  match ← exchange.atomically (perform t.work) with
  | .ok result => return result
  | .error overflow => throw (IO.userError overflow.message)

/-- What the service needs to know of a request. -/
def readRequest (r : Std.Http.Request Std.Http.Body.Stream) : ContextAsync Http.Request := do
  let bytes : ByteArray ← r.body.readAll
  return {
    method := toString r.line.method
    uri := toString r.line.uri
    contentType := (r.line.headers.get? .contentType).map (·.value)
    body := Text.decodeLossy bytes.toList }

/-- An answer in the form in which it is sent. -/
def sendable (r : Http.Response) : Async (Std.Http.Response Std.Http.Body.Any) := do
  let status := (Std.Http.Status.ofCode none r.status.toUInt16).getD .internalServerError
  let head := Std.Http.Response.withStatus status
  match r.content with
  | .json j => return (← head.json j.toText)
  | .text s => return (← head.text s)
  | .unspecified => return (← head.empty)

/-- Answers a request while nobody else works on the exchange. -/
def answer (engine : Engine) (exchange : Std.Mutex Exchange)
    (r : Std.Http.Request Std.Http.Body.Stream) :
    ContextAsync (Std.Http.Response Std.Http.Body.Any) := do
  let request ← readRequest r
  let work : Task Empty Http.Response := Http.respond engine request
  match ← runTask exchange work with
  | .ok response => sendable response

/-- Matches the book and works off the queue of settlements at regular intervals. -/
def tickForever (engine : Engine) (exchange : Std.Mutex Exchange)
    (interval : Std.Time.Millisecond.Offset) : Async Unit := do
  let work : Task Empty Unit := engine.tick []
  repeat
    try
      let _ ← runTask exchange work
    catch e =>
      IO.eprintln e
    sleep interval

/-- Answers requests and ticks until the process is interrupted. Further interrupts do not keep it
from finishing the requests that it has begun to answer. -/
def serve (config : Config) (exchange : Std.Mutex Exchange) : Async Unit := do
  let engine := Engine.ofConfig config
  let interrupted ← (← Signal.Waiter.mk .sigint true).wait
  let server ← Std.Http.Server.serve (.v4 ⟨.ofParts 0 0 0 0, config.httpPort⟩)
    (Std.Http.Server.Handler.ofFn (answer engine exchange))
  background (tickForever engine exchange (.ofInt config.matchInterval.toNat))
  let _ ← await interrupted
  server.shutdownAndWait

/-- The settings of the process. -/
def readConfig : IO Config := do
  let values ← Config.variableNames.mapM fun name => return (name, ← IO.getEnv name)
  return .ofLookup fun name => (values.lookup name).join

/-- What stands in the file with the given name. -/
def readPlace (path : String) : IO SnapshotPlace := do
  try
    return .file (← IO.FS.readFile path)
  catch
    | .noFileOrDirectory _ _ _ => return .empty
    | e => throw e

/-- The snapshot in the file with the given name, if the file is there. -/
def loadSnapshot (path : String) : IO (Option Snapshot) := do
  match (← readPlace path).load with
  | .ok snapshot => return snapshot
  | .error _ => throw (IO.userError "the snapshot file holds no snapshot")

end Bourse.Server

open Bourse Bourse.Server

/-- Opens the exchange, serves it, and saves its store in the end. -/
def main : IO Unit := do
  let config ← readConfig
  let snapshot ← match config.snapshotPath with
    | some path => loadSnapshot path
    | none => pure none
  match Exchange.opening config snapshot with
  | .error overflow => throw (IO.userError overflow.message)
  | .ok exchange =>
    let exchange ← Std.Mutex.new exchange
    (serve config exchange).block
    if let some path := config.snapshotPath then
      let s ← exchange.atomically get
      IO.FS.writeFile path s.store.snapshot.toText
