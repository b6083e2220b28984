import AskMetrics.Http.Form
import AskMetrics.Http.Wire
import AskMetrics.Service.Startup
import Std.Time

/-!
# The program

The service takes its settings from the environment and serves one connection, which whoever starts
it hands over as standard input and output. So a client has no address but what its headers say. The
log goes to standard error. There is no way from the program to other hosts, so the backends count
as unreachable.

All decisions are made elsewhere: here is only what reads and writes.
-/
namespace AskMetrics.Program

open AskMetrics.Http AskMetrics.Service

/-- What the clocks show. -/
structure Reading where
  /-- Milliseconds since 1970. -/
  wall : Int
  /-- Nanoseconds since the start. -/
  uptime : Nat

/-- The clock that shows the last reading. -/
def clock : Clock Reading := ⟨fun r => (r.wall, r), fun r => (r.uptime, r)⟩

/-- The transport that reaches nobody. -/
def transport : Transport Reading := fun _ request r =>
  (.error (.failed ("error sending request for url (" ++ request.target ++ ")")), r)

/-- Reads the clocks. -/
def readClocks (start : Nat) : IO Reading := do
  let wall ← Std.Time.Timestamp.now
  let now ← IO.monoNanosNow
  return ⟨wall.toMillisecondsSinceUnixEpoch.val, now - start⟩

/-- Reads the variables. -/
def readVariables : IO Variables := do
  let pairs ← variableNames.mapM fun name => do return (name, ← IO.getEnv name)
  return fun name => (pairs.lookup name).join

/-- Writes lines of the log. -/
def writeLog (lines : List LogLine) : IO Unit := do
  for line in lines do IO.eprintln line.toJson.render

/-- Reads the lines of a head, up to an empty line or the end. -/
partial def readHead (input : IO.FS.Stream) : IO (List String) := do
  let line := (← input.getLine).trimAsciiEnd.toString
  if line.isEmpty then return [] else return line :: (← readHead input)

/-- Reads some bytes, or fewer if the connection ends. -/
partial def readBytes (input : IO.FS.Stream) (n : Nat) (done : ByteArray) : IO ByteArray := do
  if n ≤ done.size then return done
  let bytes ← input.read (.ofNat (n - done.size))
  if bytes.isEmpty then return done else readBytes input n (done ++ bytes)

/-- Answers requests until the connection ends. -/
partial def serve (server : Server Reading) (start : Nat) (input output : IO.FS.Stream)
    (state : ServerState Reading) : IO Unit := do
  match Request.ofHead? (← readHead input) with
  | none => return
  | some head =>
    let bytes ← readBytes input head.bodyLength .empty
    let request := { head with body := .ofList (decodeUtf8 (bytes.toList.map UInt8.toNat)) }
    let (response, state) := server.handle request { state with world := ← readClocks start }
    output.putStr response.render
    output.flush
    serve server start input output state

/-- Tells why the program ends. -/
def fail (rejection : Rejection) : IO UInt32 := do
  IO.eprintln rejection.display
  return 1

end AskMetrics.Program

open AskMetrics AskMetrics.Service AskMetrics.Program

/-- Starts the service, and serves the connection until it ends. -/
def main : IO UInt32 := do
  let start ← IO.monoNanosNow
  let vars ← readVariables
  let startup := Startup.ofVariables vars
  writeLog (startup.kept startup.log)
  match startup.listenAt, Server.ofVariables transport clock vars with
  | .error rejection, _ => fail rejection
  | _, .error failure => fail (.internal failure.message)
  | .ok _, .ok server =>
    serve server start (← IO.getStdin) (← IO.getStdout) (server.initialState (← readClocks start))
    writeLog (startup.kept Startup.lastLines)
    return 0
