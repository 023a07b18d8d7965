import BridgeMcp.Session.ExecOutput

/-!
Commands on one session, one after the other, over one channel. The shell's answers form a byte
stream. The stream reaches `exec` cut into channel messages in an arbitrary way; a read stops with
the message that completes its end marker and leaves the rest for the next read.
-/
namespace BridgeMcp.Session
open TextLib TransitionLib BridgeMcp.Shell

inductive ChannelMsg where
  | data (bytes : List UInt8)
  | extendedData (bytes : List UInt8)
  | eof
  | other

/-- What happens next on the channel: a message with the next bytes of the stream, or none. -/
inductive Arrival where
  | data (length : ℕ)
  | extendedData (length : ℕ)
  | eof
  | closed
  | other

/-- What `channel.wait()` returns, and the bytes still to come. -/
def Arrival.wait (wire : List UInt8) : Arrival → Option ChannelMsg × List UInt8
  | .data length => (some (.data (wire.take length)), wire.drop length)
  | .extendedData length => (some (.extendedData (wire.take length)), wire.drop length)
  | .eof => (some .eof, wire)
  | .closed => (none, wire)
  | .other => (some .other, wire)

/-- The read loop. `arrivals` is what happens before the deadline. -/
def readUntilMarkerInclusive (marker : Text) (timeoutSecs : ℕ) (output : Text)
    (wire : List UInt8) : List Arrival → Except BridgeError Text × List UInt8
  | [] => (.error (.sshTimeout timeoutSecs), wire)
  | arrival :: arrivals =>
    match arrival.wait wire with
    | (some (.data bytes), wire) | (some (.extendedData bytes), wire) =>
      if contains (output ++ fromUtf8Lossy bytes) marker then
        (.ok (output ++ fromUtf8Lossy bytes), wire)
      else
        readUntilMarkerInclusive marker timeoutSecs (output ++ fromUtf8Lossy bytes) wire arrivals
    | (some .eof, wire) | (none, wire) => (.error (.sshExec .shellClosed), wire)
    | (some .other, wire) => readUntilMarkerInclusive marker timeoutSecs output wire arrivals

structure LiveSession extends ShellSession where
  shell : ShellType
  cwd : Text
  pendingEndMarker : Option Text

structure Channel where
  sent : List Text
  /-- The bytes the shell wrote that no message has brought yet. -/
  wire : List UInt8

def staleOutputDrainTimeoutSecs : ℕ := 10

def drainStaleOutput (session : LiveSession) (wire : List UInt8) (arrivals : List Arrival) :
    Except BridgeError LiveSession × List UInt8 :=
  match session.pendingEndMarker with
  | none => (.ok session, wire)
  | some staleMarker =>
    match readUntilMarkerInclusive staleMarker staleOutputDrainTimeoutSecs [] wire arrivals with
    | (.ok _, wire) => (.ok { session with pendingEndMarker := none }, wire)
    | (.error e, wire) => (.error e, wire)

/-- One call of `exec`, with everything the outside decides about it. -/
structure Call where
  command : Text
  timeoutSecs : ℕ
  execId : Uuid
  /-- The clock when the call begins, and when it sends the command. -/
  startedAt : ℕ
  sentAt : ℕ
  /-- The command runs `exit` in the session's own shell. -/
  endsSession : Bool
  drainArrivals : List Arrival
  sendSucceeds : Bool
  /-- What the shell does when it gets the command. -/
  reply : Reply
  readArrivals : List Arrival

/-- `exec` on a session found in the map: the session if it is kept, the channel, and what the
call returns. -/
def exec (config : SessionConfig) (eol : Eol) (id : SessionId) (session : LiveSession)
    (channel : Channel) (call : Call) :
    Option LiveSession × Channel × Except BridgeError SessionExecResult :=
  match expiryReason (call.startedAt - session.lastUsed) (call.startedAt - session.createdAt)
      config with
  | some _ => (none, channel, .error (.sessionExpired id))
  | none =>
    if call.endsSession then (some session, channel, .error .mcpInvalidRequest)
    else
      match drainStaleOutput session channel.wire call.drainArrivals with
      | (.error e, wire) =>
        if readErrorProvesShellIsGone e then
          (none, { channel with wire }, .error (.sshExec .closedWhileDraining))
        else (some session, { channel with wire }, .error (.sshExec .earlierUnfinished))
      | (.ok session, wire) =>
        let session := { session with lastUsed := call.sentAt }
        let wrapped := buildExecWrapper session.shell call.command (beginMarker call.execId)
          (endMarker call.execId)
        if call.sendSucceeds then
          let sent := channel.sent ++ [wrapped]
          match readUntilMarkerInclusive (endMarker call.execId) call.timeoutSecs []
              (wire ++ call.reply.bytes eol call.execId) call.readArrivals with
          | (.ok raw, wire) =>
            let parsed := parseExecOutput raw (beginMarker call.execId)
            (some { session with cwd := parsed.2.2 }, ⟨sent, wire⟩,
              .ok ⟨id, parsed.1, parsed.2.1, parsed.2.2⟩)
          | (.error e, wire) =>
            if readErrorProvesShellIsGone e then (none, ⟨sent, wire⟩, .error e)
            else
              (some { session with pendingEndMarker := some (endMarker call.execId) },
                ⟨sent, wire⟩, .error e)
        else (none, { channel with wire }, .error (.sshExec .sendFailed))

structure Link where
  id : SessionId
  session : Option LiveSession
  channel : Channel
  history : List (Call × Except BridgeError SessionExecResult)

namespace Link

def new (id : SessionId) (session : LiveSession) : Link := ⟨id, some session, ⟨[], []⟩, []⟩

def step (config : SessionConfig) (eol : Eol) (link : Link) (call : Call) : Option Link :=
  match link.session with
  | none =>
    some { link with history := link.history ++ [(call, .error (.sessionNotFound link.id))] }
  | some session =>
    let next := exec config eol link.id session link.channel call
    some { link with
      session := next.1
      channel := next.2.1
      history := link.history ++ [(call, next.2.2)] }

end Link
end BridgeMcp.Session
