import MegaFeed.Model.PcapngReader
import MegaFeed.Model.Net

/-! # `exchange.cpp`, `checkcap.cpp`: the readers of a capture

Both `main`s go through the file with a reader of their own. `packetCount` is `PCAP_PACKET_COUNT` of
`env.h`; `stop i` is `g_stop` before packet `i`, and `sends i` is whether `sendto` takes it. The
pace, the socket, what is printed and the times that are only printed are left out. -/

namespace MegaFeed.Replay
open PcapngReader (nextPacket packets)

/-! ## `exchange.cpp` -/

/-- What the loop of `main` counts, and the datagrams that went out. -/
structure Sent where
  packets : Nat := 0
  bytes : Nat := 0
  sendFailures : Nat := 0
  wire : List Bytes := []
deriving DecidableEq

/-- One round: `sendto` and the counters. -/
def Sent.send (sent : Sent) (sends : Nat → Bool) (payload : Bytes) : Sent where
  packets := sent.packets + 1
  bytes := sent.bytes + payload.length
  sendFailures := if sends sent.packets then sent.sendFailures else sent.sendFailures + 1
  wire := if sends sent.packets then sent.wire ++ [payload] else sent.wire

section
variable (stray : Nat → Bytes) (stop sends : Nat → Bool)

/-- The loop of `main`, with `remaining` packets to go. -/
def loop : (remaining : Nat) → PcapngReader → Sent → Sent
  | 0, _, sent => sent
  | remaining + 1, reader, sent =>
    if stop sent.packets then sent
    else match (nextPacket stray reader).value with
      | (none, _) => sent
      | (some (payload, _), reader) => loop remaining reader (sent.send sends payload)

/-- `main`: its exit status and what it sent; `stopped` is `g_stop` at the end. -/
def exchange (packetCount : Nat) (file : Option Bytes) (stopped : Bool) : Nat × Sent :=
  match ({} : PcapngReader).openFile file with
  | (false, _) => (1, {})
  | (true, reader) =>
    match Net.parseIpv4 IEX_GROUP with
    | none => (1, {})
    | some _ => (if stopped then 130 else 0, loop stray stop sends packetCount reader {})

/-! ## `checkcap.cpp` -/

/-- The exit status of `main`, and the packets and the bytes it counts. -/
structure Checked where
  status : Nat
  packets : Nat := 0
  bytes : Nat := 0
deriving DecidableEq

def checkcap (packetCount : Nat) (file : Option Bytes) : Checked :=
  match ({} : PcapngReader).openFile file with
  | (false, _) => { status := 1 }
  | (true, reader) =>
    let read := (packets stray reader).value
    let packets := read.length
    let status := if packets = 0 then 1 else if packets < packetCount then 2 else 0
    { status, packets, bytes := (read.map (·.1.length)).sum }

end

end MegaFeed.Replay
