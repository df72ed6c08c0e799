import LambdaIOT.Httpd.Types

/-!
# `SSI_Context` and the tag scanner

A handler casts `_appContext` to `SSI_Context`, so the structure is read out of raw
bytes and written back to them: whatever else was left in the application context is
what the fields then hold.

The scanner copies a page through a 64-byte cache and replaces `<!--#NAME-->` by the
value of the tag. `bad` marks where the C code leaves its objects (a tag name that is
too long, a negative copy) or stops making progress.
-/

namespace Httpd

open CMem

/-- `SSI_Context`, 216 bytes. -/
structure SSIContext where
  valid : Int
  source : Int
  fp : Nat
  lastModified : Bytes
  buffer : Nat
  options : Nat
  ssi : Int
  ssiState : Int
  tagLength : Int
  tagName : Bytes
  cacheOffset : Int
  cache : Bytes
  deriving DecidableEq

/-! ## Its bytes -/

/-- Little-endian bytes of an unsigned number. -/
def leBytes : Nat → Nat → Bytes
  | 0, _ => []
  | k + 1, n => n.toUInt8 :: leBytes k (n / 256)

def leValue : Bytes → Nat
  | [] => 0
  | b :: bs => b.toNat + 256 * leValue bs

/-- A `short` at offset `off`. -/
def shortAt (m : Bytes) (off : Nat) : Int :=
  let n := leValue (load m off 2)
  if n < 32768 then n else n - 65536

def shortBytes (n : Int) : Bytes := leBytes 2 (n.emod 65536).toNat

/-- A 32-bit word (a pointer or a `long`) at offset `off`. -/
def wordAt (m : Bytes) (off : Nat) : Nat := leValue (load m off 4)

def wordBytes (n : Nat) : Bytes := leBytes 4 n

namespace SSIContext

def size : Nat := 216

/-- The structure that lies at the start of `m`. -/
def ofBytes (m : Bytes) : SSIContext where
  valid := shortAt m 0
  source := shortAt m 2
  fp := wordAt m 4
  lastModified := load m 8 64
  buffer := wordAt m 72
  options := wordAt m 76
  ssi := shortAt m 80
  ssiState := shortAt m 82
  tagLength := shortAt m 84
  tagName := load m 86 64
  cacheOffset := shortAt m 150
  cache := load m 152 64

def toBytes (x : SSIContext) : Bytes :=
  shortBytes x.valid ++ shortBytes x.source ++ wordBytes x.fp ++ x.lastModified ++
    wordBytes x.buffer ++ wordBytes x.options ++ shortBytes x.ssi ++ shortBytes x.ssiState ++
    shortBytes x.tagLength ++ x.tagName ++ shortBytes x.cacheOffset ++ x.cache

/-- `memset(ctxSSI, 0, sizeof(SSI_Context))`. -/
def zero : SSIContext := ofBytes (List.replicate size 0)

end SSIContext

namespace Response

/-- `(SSI_Context*)_appContext`. -/
def ssi (r : Response) : SSIContext := SSIContext.ofBytes r.appContext

/-- Write the fields of the context back. -/
def setSsi (r : Response) (x : SSIContext) : Response :=
  { r with mem := store r.mem maxSendBufSize x.toBytes }

end Response

/-! ## The scanner of `WEB_ReadContent` -/

def tagStart : Bytes := ascii "<!--#"
def tagEnd : Bytes := ascii "-->"

/-- The variables of the scan: the context, the output, how much of the cache is done. -/
structure SsiScan where
  x : SSIContext
  out : Bytes
  consumed : Nat
  ready : Bool
  bad : Bool

namespace SsiScan

/-- `buffer[outputCount++] = pCache[consumed++]`. -/
def emit (s : SsiScan) (c : UInt8) (maxSize : Int) : SsiScan :=
  { s with
    out := s.out ++ [c]
    consumed := s.consumed + 1
    ready := decide (maxSize ≤ (s.out.length + 1 : Int)) }

/-- `_tagName[_tagLength++] = c; _tagName[_tagLength] = 0`. -/
def collect (s : SsiScan) (c : UInt8) : SsiScan :=
  { s with
    x := { s.x with
      tagName := store s.x.tagName s.x.tagLength.toNat [c, 0]
      tagLength := s.x.tagLength + 1 }
    consumed := s.consumed + 1
    bad := s.bad || !decide (0 ≤ s.x.tagLength ∧ s.x.tagLength + 1 < 64) }

/-- The end of a tag: its value goes to the output. -/
def replace (s : SsiScan) (d : Device) (maxSize : Int) : SsiScan :=
  let maxAllowed := maxSize - s.out.length - 50
  { s with
    x := { s.x with ssiState := 0, tagLength := 0, tagName := List.replicate 64 0 }
    out := s.out ++ replaceTag d s.x.tagName maxAllowed
    consumed := s.consumed + 3
    bad := s.bad || decide (replaceTagLen d s.x.tagName maxAllowed < 0) }

/-- One round of the loop over the cache; `none` leaves the loop without a change. -/
def round (s : SsiScan) (d : Device) (maxSize : Int) : Option SsiScan :=
  let c := at' s.x.cache s.consumed
  let left := s.x.cacheOffset - s.consumed
  if s.x.ssiState = 1 then
    if c ≠ at' tagStart 0 then some (s.emit c maxSize)
    else if 5 ≤ left then
      if hasPrefix (s.x.cache.drop s.consumed) tagStart then
        some { s with x := { s.x with ssiState := 2 }, consumed := s.consumed + 5, ready := true }
      else some (s.emit c maxSize)
    else none
  else if s.x.ssiState = 2 then
    if c ≠ at' tagEnd 0 then some (s.collect c)
    else if 3 ≤ left then
      if hasPrefix (s.x.cache.drop s.consumed) tagEnd then some (s.replace d maxSize)
      else some (s.collect c)
    else none
  else some { s with bad := true }

/-- `while (consumed < _cacheOffset)`. A round consumes at least one byte. -/
def loop (d : Device) (maxSize : Int) : Nat → SsiScan → SsiScan
  | 0, s => s
  | fuel + 1, s =>
    if (s.consumed : Int) < s.x.cacheOffset ∧ s.ready = false ∧ s.bad = false then
      let s := if s.x.ssiState = 0 then { s with x := { s.x with ssiState := 1 } } else s
      match s.round d maxSize with
      | some s' => loop d maxSize fuel s'
      | none => s
    else s

/-- Shift the consumed bytes out of the cache. -/
def shift (s : SsiScan) : SsiScan :=
  { s with
    x := { s.x with
      cacheOffset := s.x.cacheOffset - s.consumed
      cache := store s.x.cache 0
        (load s.x.cache s.consumed (s.x.cacheOffset - s.consumed).toNat) }
    consumed := 0 }

end SsiScan

end Httpd
