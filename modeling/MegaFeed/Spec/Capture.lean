import MegaFeed.Model.PcapngReader

/-! # Capture files

The walk over the block headers of any file (`following`), and the pcapng files a writer makes
(`Section.bytes`), both without the reader. -/

namespace MegaFeed.Pcapng
open PcapngReader (MAX_BLOCK_LENGTH)

/-! ## The walk -/

/-- A word of the file in its section's byte order. -/
def word (swapped : Bool) (bytes : Bytes) : UInt32 :=
  if swapped then getU32 [bytes.byte 3, bytes.byte 2, bytes.byte 1, bytes.byte 0] else getU32 bytes

/-- A place in a file: the byte order there and what is left of the file. -/
abbrev Position := Bool × Bytes

/-- Where the header behind the one at `place` is looked for, by this call or the next one. -/
def following (place : Position) : Position :=
  let (swapped, rest) := place
  if getU32 rest = 0x0a0d0d0a then
    let magic := getU32 (rest.drop 8)
    if 12 ≤ rest.length ∧ (magic = 0x1a2b3c4d ∨ magic = 0x4d3c2b1a) then
      let swapped : Bool := magic = 0x4d3c2b1a
      let length := word swapped (rest.drop 4)
      (swapped, rest.drop (if 28 ≤ length ∧ length ≤ MAX_BLOCK_LENGTH then length.toNat else 12))
    else
      (swapped, rest.drop 12)
  else
    let length := word swapped (rest.drop 4)
    (swapped, rest.drop (if 12 ≤ length ∧ length ≤ MAX_BLOCK_LENGTH then length.toNat else 8))

/-- An Enhanced Packet Block that is all there and has less than 28 bytes. -/
def ShortPacketBlock (place : Position) : Prop :=
  let (swapped, rest) := place
  let length := word swapped (rest.drop 4)
  word swapped rest = 6 ∧ 12 ≤ length ∧ length < 28 ∧ length.toNat ≤ rest.length

instance (place : Position) : Decidable (ShortPacketBlock place) :=
  inferInstanceAs (Decidable (_ ∧ _))

/-- A section header, and an Enhanced Packet Block with nothing between its two lengths. -/
def shortCapture : Bytes :=
  [0x0a, 0x0d, 0x0d, 0x0a, 28, 0, 0, 0, 0x4d, 0x3c, 0x2b, 0x1a, 1, 0, 0, 0,
   255, 255, 255, 255, 255, 255, 255, 255, 28, 0, 0, 0,
   6, 0, 0, 0, 12, 0, 0, 0, 12, 0, 0, 0]

/-! ## Writing -/

/-- A word as a section of byte order `swapped` stores it. -/
def word16 (swapped : Bool) (value : UInt16) : Bytes :=
  if swapped then (putU16 value).reverse else putU16 value

def word32 (swapped : Bool) (value : UInt32) : Bytes :=
  if swapped then (putU32 value).reverse else putU32 value

/-- A block: its type, its total length, the body and the total length again. -/
def block (swapped : Bool) (type : UInt32) (body : Bytes) : Bytes :=
  let length := word32 swapped (UInt32.ofNat (body.length + 12))
  word32 swapped type ++ length ++ body ++ length

/-- A UDP datagram in an Ethernet frame. The header fields that say nothing of where the payload
lies are arbitrary bytes, those of an unfragmented datagram among them. -/
structure UdpFrame where
  /-- Destination and source. -/
  macs : Vector UInt8 12
  /-- The length of the IPv4 header in 32-bit words. -/
  headerWords : Nat
  /-- From the type of service to the time to live. -/
  service : Vector UInt8 8
  /-- The header checksum, the addresses and the options. -/
  addresses : Bytes
  ports : Vector UInt8 4
  payload : Bytes
  checksum : Vector UInt8 2
  /-- What Ethernet adds behind the datagram. -/
  padding : Bytes
  words_ge : 5 ≤ headerWords
  words_le : headerWords ≤ 15
  addresses_length : addresses.length = headerWords * 4 - 10
  payload_fits : payload.length + 8 < 2 ^ 16

def UdpFrame.bytes (frame : UdpFrame) : Bytes :=
  frame.macs.toList ++ [0x08, 0x00] ++
  [0x40 ||| UInt8.ofNat frame.headerWords] ++ frame.service.toList ++ [17] ++ frame.addresses ++
  frame.ports.toList ++ (putU16 (UInt16.ofNat (frame.payload.length + 8))).reverse ++
  frame.checksum.toList ++ frame.payload ++ frame.padding

/-- A block of a section. -/
inductive Entry
  /-- An Interface Description Block; `rest` is the reserved bytes, the snap length and
  the options. -/
  | interface (linkType : UInt16) (rest : Bytes)
  /-- A datagram in an Enhanced Packet Block; `rest` is the padding of the block and its options. -/
  | datagram (interfaceId : UInt32) (ticks : UInt64) (frame : UdpFrame) (rest : Bytes)
  /-- Any other packet. -/
  | packet (interfaceId : UInt32) (ticks : UInt64) (data : Bytes) (wireLength : UInt32)
    (rest : Bytes)
  | other (type : UInt32) (body : Bytes)

/-- The body of an Enhanced Packet Block. -/
def packetBody (swapped : Bool) (interfaceId : UInt32) (ticks : UInt64) (data : Bytes)
    (wireLength : UInt32) (rest : Bytes) : Bytes :=
  word32 swapped interfaceId ++ word32 swapped (ticks >>> 32).toUInt32 ++
  word32 swapped ticks.toUInt32 ++ word32 swapped (UInt32.ofNat data.length) ++ word32 swapped
    wireLength ++ data ++ rest

namespace Entry

def type : Entry → UInt32
  | interface .. => 1
  | datagram .. | packet .. => 6
  | other type _ => type

def body (swapped : Bool) : Entry → Bytes
  | interface linkType rest => word16 swapped linkType ++ rest
  | datagram interfaceId ticks frame rest =>
    packetBody swapped interfaceId ticks frame.bytes (UInt32.ofNat frame.bytes.length) rest
  | packet interfaceId ticks data wireLength rest =>
    packetBody swapped interfaceId ticks data wireLength rest
  | other _ body => body

def bytes (swapped : Bool) (entry : Entry) : Bytes := block swapped entry.type (entry.body swapped)

/-- The link types of a section's interfaces behind the block. -/
def links (links : List UInt16) : Entry → List UInt16
  | interface linkType _ => links ++ [linkType]
  | _ => links

/-- The payload a reader is to hand back. -/
def payload? : Entry → Option Bytes
  | datagram _ _ frame _ => some frame.payload
  | _ => none

/-- Not an IPv4 frame, or none that carries UDP. -/
def NotUdp (data : Bytes) : Prop :=
  (data.drop 12).take 2 ≠ [0x08, 0x00] ∨ data.byte 14 >>> 4 ≠ 4 ∨ data.byte 23 ≠ 17

/-- The block may stand where the interfaces so far have the link types `links`. A packet that is
no datagram is cut short, of another link type than Ethernet, or holds something else than UDP
over IPv4. -/
def Fits (links : List UInt16) : Entry → Prop
  | interface .. => True
  | datagram interfaceId .. => links[interfaceId.toNat]? = some 1
  | packet interfaceId _ data wireLength _ =>
    data.length < wireLength.toNat ∨ (∃ link ∈ links[interfaceId.toNat]?, link ≠ 1) ∨ NotUdp data
  | other type _ => type ≠ 0x0a0d0d0a ∧ type ≠ 1 ∧ type ≠ 6

end Entry

/-- Blocks one after the other, each of a size the format allows. -/
def Fits (swapped : Bool) (links : List UInt16) : List Entry → Prop
  | [] => True
  | entry :: entries =>
    entry.Fits links ∧ (entry.bytes swapped).length ≤ MAX_BLOCK_LENGTH.toNat ∧
    Fits swapped (entry.links links) entries

structure Section where
  swapped : Bool
  /-- The version, the section length and the options of the section header. -/
  rest : Bytes
  entries : List Entry
  rest_length : 12 ≤ rest.length
  rest_fits : rest.length + 16 ≤ MAX_BLOCK_LENGTH.toNat
  fits : Fits swapped [] entries

namespace Section

def header (s : Section) : Bytes :=
  let length := word32 s.swapped (UInt32.ofNat (s.rest.length + 16))
  word32 s.swapped 0x0a0d0d0a ++ length ++ word32 s.swapped 0x1a2b3c4d ++ s.rest ++ length

def bytes (s : Section) : Bytes := s.header ++ s.entries.flatMap (·.bytes s.swapped)

def payloads (s : Section) : List Bytes := s.entries.filterMap (·.payload?)

end Section

/-! ## Interface options -/

/-- An option: its value is padded to a multiple of four bytes, and code 0 is `opt_endofopt`. -/
structure InterfaceOption where
  code : UInt16
  value : Bytes
  padding : Bytes
  code_ne : code ≠ 0
  value_fits : value.length < 2 ^ 16
  padded : value.length + padding.length = (value.length + 3) / 4 * 4

namespace InterfaceOption

def bytes (swapped : Bool) (option : InterfaceOption) : Bytes :=
  word16 swapped option.code ++ word16 swapped (UInt16.ofNat option.value.length) ++
  option.value ++ option.padding

/-- The byte of an `if_tsresol` option. -/
def resolution? (option : InterfaceOption) : Option UInt8 :=
  if option.code = 9 then option.value.head? else none

end InterfaceOption

/-- What ends the options: the end of the block, or `opt_endofopt` with whatever is behind it. -/
def OptionsEnd (tail : Bytes) : Prop := tail = [] ∨ ∃ behind, tail = [0, 0, 0, 0] ++ behind

/-- The ticks in a second that the byte of an `if_tsresol` option stands for. -/
def ticksPerSecond (resolution : UInt8) : Nat :=
  if 128 ≤ resolution.toNat then 2 ^ (resolution.toNat % 128) else 10 ^ resolution.toNat

/-- The resolutions the reader takes; it passes over the other ones. -/
def Supported (resolution : UInt8) : Prop :=
  if 128 ≤ resolution.toNat then resolution.toNat % 128 < 64 else resolution.toNat ≤ 9

instance : DecidablePred Supported := fun _ => inferInstanceAs (Decidable (ite _ _ _))

/-- The ticks in a second on an interface with these `if_tsresol` options: the last one counts. -/
def ticksOf (resolutions : List UInt8) : Nat :=
  match resolutions.getLast? with
  | some resolution => ticksPerSecond resolution
  | none => 10 ^ 6

/-- The resolutions among some options that the reader takes. -/
def taken (options : List InterfaceOption) : List UInt8 :=
  (options.filterMap (·.resolution?)).filter fun resolution => Supported resolution

/-- The time of a tick count in nanoseconds, modulo `2 ^ 64`. -/
def nanoseconds (ticks : UInt64) (perSecond : Nat) : UInt64 :=
  .ofNat (ticks.toNat * 10 ^ 9 / perSecond)

end MegaFeed.Pcapng
