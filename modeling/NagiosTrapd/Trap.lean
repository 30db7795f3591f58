/-
# Traps and the PDU parser (`trap.c`)

The data of `trap.c` and its functions up to `trap_get_contents`.  `parse` runs
over the blank-separated tokens of the received text with the eight states of
`parse_status_t`.  Undefined behaviour is not cut off: every read or write the C
text would do through NULL, outside an allocation, or of a field nobody has set
is recorded in `faults`, and the run goes on.

The object list of a trap is a Lean list; `ParseState.object` is the source's
pointer to the current object, as a position in that list, so that the code that
appends through `old_object->next` depends on it.
-/
import NagiosTrapd.Util

namespace Trapd

open Words

/-! ## Data -/

/-- Undefined behaviour of the parser. -/
inductive ParseFault
  | nullDeref
  | overrun (index : ℕ)
  | unsetBytes
  | unterminated
  | freeUnset
  deriving DecidableEq, Repr

/-- A buffer that is filled piece by piece: its size in bytes, the characters
written from its start on, and whether a terminator stands behind them. -/
structure CBuf where
  size : ℕ
  cells : Str
  terminated : Bool
  deriving DecidableEq, Repr

/-- Store `text` at `pos`; what stood behind is no longer part of the contents. -/
def CBuf.write (b : CBuf) (pos : ℕ) (text : Str) : CBuf :=
  { b with cells := b.cells.take pos ++ text, terminated := false }

/-- Store the terminator at `pos`. -/
def CBuf.terminate (b : CBuf) (pos : ℕ) : CBuf :=
  { b with cells := b.cells.take pos, terminated := true }

/-- What goes wrong when `len` bytes are stored at `pos`. -/
def CBuf.check (b : CBuf) (pos len : ℕ) : List ParseFault :=
  (if b.cells.length < pos then [.unsetBytes] else [])
    ++ (if b.size < pos + len then [.overrun (pos + len - 1)] else [])

/-- A field that starts out with the allocation's garbage. -/
inductive Slot (α : Type)
  | unset
  | set (a : α)
  deriving DecidableEq, Repr

/-- `struct mib_object_t`. -/
structure MibObject where
  oid : Option Str
  value : Option CBuf
  quoted_value : Slot (Option Str)
  deriving DecidableEq, Repr

/-- `object->value` read as a string. -/
def MibObject.valueStr (o : MibObject) : Option Str := o.value.map CBuf.cells

/-- `struct trap_t`; `oid` points at the value of one of the objects. -/
structure Trap where
  seconds : ℕ
  useconds : ℕ
  hostname : Option Str
  ipaddress : Option Str
  oid : Option Str
  objects : List MibObject
  deriving DecidableEq, Repr

/-- `alloc_trap`: all fields zero. -/
def allocTrap : Trap := ⟨0, 0, none, none, none, []⟩

/-- `proto_cmd_t`. -/
inductive ProtoCmd
  | none | trap | alive | diagnostics | invalid
  deriving DecidableEq, Repr

/-- `struct pdu_t`. -/
structure Pdu where
  command : ProtoCmd
  trap : Option Trap
  deriving DecidableEq, Repr

/-- `struct timeval`, as `gettimeofday` fills it. -/
structure Timeval where
  tv_sec : ℕ
  tv_usec : ℕ
  deriving DecidableEq, Repr

/-- `parse_status_t`. -/
inductive ParseStatus
  | started | commandRead | hostnameRead | readingIpaddress | ipaddressRead | oidRead
  | readingValue | valueRead
  deriving DecidableEq, Repr

/-! ## Addresses and OIDs -/

/-- `extract_ipaddress`: what follows the first `[`, up to a `]` if there is one
(`found` still holds the outcome of the first loop when the second one ends). -/
def extractIpaddress (string : Str) : Option Str :=
  if isEmpty (some string) then none
  else match string.dropWhile (· ≠ '[') with
    | [] => none
    | _ :: start => some (start.takeWhile (· ≠ ']'))

/-- The OID that carries the trap's own OID, by name. -/
def snmpTrapOIDName : Str := "SNMPv2-MIB::snmpTrapOID.0".toList

/-- The OID that carries the trap's own OID, by number. -/
def snmpTrapOIDNumber : Str := ".1.3.6.1.6.3.1.1.4.1.0".toList

/-- `oid_is_snmpTrapOID`. -/
def oidIsSnmpTrapOID (oid : Option Str) : Bool :=
  if isEmpty oid then false
  else oid == some snmpTrapOIDName || oid == some snmpTrapOIDNumber

/-! ## After the token loop -/

/-- The last loop of `post_parse`, for one object. -/
def quoteObject (o : MibObject) : MibObject :=
  match o.valueStr with
  | some v => { o with quoted_value := .set (some (quotedValue v)) }
  | none => { o with quoted_value := .set none }

/-- `post_parse`: `none` when no object names the trap OID. -/
def postParse (tv : Timeval) (trap : Trap) : Option Trap :=
  match trap.objects.find? fun o => oidIsSnmpTrapOID o.oid with
  | none => none
  | some o =>
      some { trap with
        oid := o.valueStr
        seconds := tv.tv_sec
        useconds := tv.tv_usec
        objects := trap.objects.map quoteObject }

/-- Values read as strings by `post_parse` before they are terminated. -/
def postParseFaults (trap : Trap) : List ParseFault :=
  trap.objects.filterMap fun o =>
    if o.value.any fun b => !b.terminated then some .unterminated else none

/-- `free_trap` frees the three fields of every object, set or not. -/
def freeTrapFaults (trap : Option Trap) : List ParseFault :=
  (trap.map Trap.objects).getD [] |>.filterMap fun o =>
    if o.quoted_value = .unset then some .freeUnset else none

/-! ## The token loop of `parse` -/

/-- The local variables of `parse`. -/
structure ParseState where
  status : ParseStatus
  proto_cmd : ProtoCmd
  tokenizer_found : Bool
  pdu : Option Pdu
  trap : Option Trap
  object : Option ℕ
  ipbuf : CBuf
  tokenlen : ℕ
  faults : List ParseFault
  deriving DecidableEq, Repr

/-- The variables before the first token. -/
def ParseState.init : ParseState where
  status := .started
  proto_cmd := .none
  tokenizer_found := false
  pdu := none
  trap := none
  object := none
  ipbuf := ⟨TMPBUFLEN, [], false⟩
  tokenlen := 0
  faults := []

def ParseState.fault (s : ParseState) (fs : List ParseFault) : ParseState :=
  { s with faults := s.faults ++ fs }

/-- Change the trap, through the pointer `trap`. -/
def ParseState.onTrap (s : ParseState) (f : Trap → Trap) : ParseState :=
  match s.trap with
  | none => s.fault [.nullDeref]
  | some tr => { s with trap := some (f tr) }

/-- Change the current object, through the pointer `object`. -/
def ParseState.onObject (s : ParseState) (f : MibObject → MibObject × List ParseFault) :
    ParseState :=
  match s.trap, s.object with
  | some tr, some i =>
      match tr.objects[i]? with
      | none => s.fault [.nullDeref]
      | some o =>
          { s with trap := some { tr with objects := tr.objects.set i (f o).1 } }.fault (f o).2
  | _, _ => s.fault [.nullDeref]

/-- `object->value = xmalloc(n); memcpy(object->value, text, ..)`. -/
def allocValue (n : ℕ) (text : Str) (o : MibObject) : MibObject × List ParseFault :=
  let b : CBuf := ⟨n, [], false⟩
  ({ o with value := some (b.write 0 text) }, b.check 0 text.length)

/-- `object->value = xrealloc(object->value, n)`, then `text` stored at `pos`. -/
def growValue (n pos : ℕ) (text : Str) (o : MibObject) : MibObject × List ParseFault :=
  match o.value with
  | none => (o, [.nullDeref])
  | some b =>
      let b := { b with size := n }
      ({ o with value := some (b.write pos text) }, b.check pos text.length)

/-- `object->value[pos] = '\0'`. -/
def terminateValue (pos : ℕ) (o : MibObject) : MibObject × List ParseFault :=
  match o.value with
  | none => (o, [.nullDeref])
  | some b => ({ o with value := some (b.terminate pos) }, b.check pos 1)

/-- The states `S_IPADDRESS_READ` and `S_VALUE_READ`: a new object, linked behind
the current one, or first in the trap. -/
def ParseState.newObject (s : ParseState) (token : Str) : ParseState :=
  let new : MibObject := ⟨xstrdup (some token), none, .unset⟩
  match s.trap with
  | none => s.fault [.nullDeref]
  | some tr =>
      if tr.objects = [] then
        { s with trap := some { tr with objects := [new] }, object := some 0 }
      else match s.object with
        | none => s.fault [.nullDeref]
        | some i =>
            { s with
              trap := some { tr with objects := tr.objects.take (i + 1) ++ [new] }
              object := some (i + 1) }

/-- The command a PDU starts with. -/
def readCommand (is_private : Bool) (token : Str) : ProtoCmd :=
  if token = "TRAP".toList then .trap
  else if token = "ALIVE?".toList then .alive
  else if token = "DIAGNOSTICS".toList then
    if is_private then .diagnostics else .invalid
  else .invalid

/-- The `switch` of `parse`. -/
def parseSwitch (is_private : Bool) (s : ParseState) (token : Str) : ParseState :=
  match s.status with
  | .started =>
      let proto_cmd := readCommand is_private token
      { s with proto_cmd := proto_cmd, pdu := some ⟨proto_cmd, none⟩, status := .commandRead }
  | .commandRead =>
      { s with
        trap := some { allocTrap with hostname := xstrdup (some token) }
        status := .hostnameRead }
  | .hostnameRead =>
      -- strcpy: the terminator is written along
      { s with
        tokenlen := token.length
        ipbuf := { s.ipbuf.write 0 token with terminated := true }
        status := .readingIpaddress }.fault (s.ipbuf.check 0 (token.length + 1))
  | .readingIpaddress =>
      -- memcpy: the terminator only comes with the next tokenizer
      if s.tokenizer_found = false then
        { s with
          ipbuf := s.ipbuf.write s.tokenlen (' ' :: token)
          tokenlen := s.tokenlen + (token.length + 1) }.fault
          (s.ipbuf.check s.tokenlen (token.length + 1))
      else
        let s := { s with ipbuf := s.ipbuf.terminate s.tokenlen }.fault
          (s.ipbuf.check s.tokenlen 1)
        { s.onTrap fun tr => { tr with ipaddress := extractIpaddress s.ipbuf.cells } with
          status := .ipaddressRead }
  | .ipaddressRead | .valueRead => { s.newObject token with status := .oidRead }
  | .oidRead =>
      { s.onObject (allocValue (token.length + 1) token) with
        tokenlen := token.length
        status := .readingValue }
  | .readingValue =>
      if s.tokenizer_found = false then
        { s.onObject (growValue (s.tokenlen + token.length + 2) s.tokenlen (' ' :: token)) with
          tokenlen := s.tokenlen + (token.length + 1) }
      else
        { s.onObject (terminateValue s.tokenlen) with status := .valueRead }

/-- One iteration of the `for` loop of `parse`.  A command other than `TRAP`
leaves the loop: later tokens change nothing. -/
def parseStep (trap_tokenizer : Str) (is_private : Bool) (s : ParseState) (token : Str) :
    ParseState :=
  if s.proto_cmd ≠ .none ∧ s.proto_cmd ≠ .trap then s
  else
    let found := s.tokenizer_found || token == trap_tokenizer
    -- tokenizers in front of the host name are skipped
    if found = true ∧ (s.status = .started ∨ s.status = .commandRead) then
      { s with tokenizer_found := false }
    else
      { parseSwitch is_private { s with tokenizer_found := found } token with
        tokenizer_found := false }

/-- The `for` loop of `parse`. -/
def parseLoop (trap_tokenizer : Str) (is_private : Bool) (s : ParseState) (tokens : List Str) :
    ParseState :=
  tokens.foldl (parseStep trap_tokenizer is_private) s

/-- What a call of `parse` leaves: the PDU it returns, by how much `trap_parsed`
has grown, and the undefined behaviour met. -/
structure ParseResult where
  pdu : Option Pdu
  trap_parsed : ℕ
  faults : List ParseFault
  deriving DecidableEq, Repr

/-- `pdu->command = PROTO_CMD_INVALID`, after `free_trap(trap)`. -/
def rejectTrap (s : ParseState) : ParseResult :=
  { pdu := s.pdu.map fun p => { p with command := .invalid }
    trap_parsed := 0
    faults := s.faults ++ freeTrapFaults s.trap
      ++ (if s.pdu = none then [.nullDeref] else []) }

/-- The part of `parse` after the loop. -/
def finishParse (tv : Timeval) (s : ParseState) : ParseResult :=
  if s.proto_cmd = .trap then
    let s :=
      -- the buffer may end inside a value, which then has no terminator yet
      if s.status = .readingValue then
        { s.onObject (terminateValue s.tokenlen) with status := .valueRead }
      else s
    if s.status ≠ .ipaddressRead ∧ s.status ≠ .valueRead then rejectTrap s
    else match s.trap.bind (postParse tv) with
      | none => rejectTrap s
      | some tr =>
          { pdu := s.pdu.map fun p => { p with trap := some tr }
            trap_parsed := 1
            faults := s.faults ++ (s.trap.map postParseFaults).getD []
              ++ (if s.pdu = none then [.nullDeref] else []) }
  else { pdu := s.pdu, trap_parsed := 0, faults := s.faults }

/-- `parse`. -/
def parse (trap_tokenizer : Str) (tv : Timeval) (buffer : Str) (is_private : Bool) :
    ParseResult :=
  match removeChars (some buffer) ['\n', '\r'] with
  | none => { pdu := some ⟨.invalid, none⟩, trap_parsed := 0, faults := [] }
  | some buf =>
      finishParse tv (parseLoop trap_tokenizer is_private .init (words ' ' buf))

/-! ## The text handed to a plugin -/

/-- One `oid=quoted_value` of `trap_get_contents`; `none` where the source takes
the length of NULL or of an unset field. -/
def objectContents (o : MibObject) : Option Str :=
  match o.oid, o.quoted_value with
  | some oid, .set (some q) => some (oid ++ '=' :: q)
  | _, _ => none

/-- The loop of `trap_get_contents`, `buffer` holding the objects before. -/
def contentsLoop : Option Str → List MibObject → Option (Option Str)
  | buffer, [] => some buffer
  | buffer, o :: os =>
      match objectContents o with
      | none => none
      | some text =>
          match buffer with
          | none => contentsLoop (some text) os
          | some b => contentsLoop (some (b ++ ' ' :: text)) os

/-- `trap_get_contents`: `none` is undefined behaviour, `some none` the NULL it
returns for a trap without objects. -/
def trapGetContents (trap : Trap) : Option (Option Str) := contentsLoop none trap.objects

/-- `trap_get_timestamp`: the seconds cut to an `unsigned int`. -/
def trapGetTimestamp (trap : Trap) : ℕ := trap.seconds % 2 ^ 32

end Trapd
