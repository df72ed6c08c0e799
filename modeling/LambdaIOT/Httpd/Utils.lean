import LambdaIOT.Lib.CLib

/-!
# `utils.c` and the date parser of `sys_arch.c`

Case-insensitive comparison, the two in-place decoders, the content-type table and
`parseHttpDate`. `URLDecode` rewrites its argument, so it maps a memory to a memory
and the index at which it stopped. `DecodeB64` writes behind its own read position,
so it is given as the bytes it leaves in front of the new terminator.
-/

namespace Httpd

open CMem

/-- `toUpper(c)`. -/
def toUpper (c : UInt8) : UInt8 := if 97 ≤ c && c ≤ 122 then c &&& 0xDF else c

/-- The loop of `Strnicmp` over the two strings. -/
def strnicmpLoop : Bytes → Bytes → Nat → Int
  | _, _, 0 => 0
  | a :: as, b :: bs, n + 1 =>
    let res : Int := (toUpper a).toNat - (toUpper b).toNat
    if res ≠ 0 then (if res < 0 then -1 else 1) else strnicmpLoop as bs n
  | _ :: _, [], _ + 1 => 1
  | [], _ :: _, _ + 1 => -1
  | [], [], _ + 1 => 0

/-- `Strnicmp(str1, str2, n)`. -/
def strnicmp (str1 str2 : Bytes) (n : Nat) : Int := strnicmpLoop (cstr str1) (cstr str2) n

/-- `Strnicmp(s, lit, strlen(lit)) == 0`: `s` starts with `lit`, in any case. -/
def hasPrefix (s lit : Bytes) : Bool := strnicmp s lit lit.length == 0

/-- `Hex2Int(c)`. -/
def hex2Int (c : UInt8) : Option Nat :=
  ((ascii "00112233445566778899AaBbCcDdEeFf").findIdx? (· == c)).map (· / 2)

/-- The byte at index `i`; memory behind the object reads as NUL. -/
def at' (m : Bytes) (i : Nat) : UInt8 := m.getD i 0

/-- The loop of `URLDecode`, with `len` counted down as sequences collapse. -/
def urlDecodeLoop : Nat → Bytes → Nat → Nat → Bytes × Nat
  | 0, url, i, _ => (url, i)
  | fuel + 1, url, i, len =>
    if i < len ∧ at' url i ≠ 0 then
      if at' url i ≠ 37 then urlDecodeLoop fuel url (i + 1) len
      else if i + 2 < len then
        match hex2Int (at' url (i + 1)), hex2Int (at' url (i + 2)) with
        | some a, some b =>
          let url := store url i [(a * 16 + b).toUInt8]
          let url := store url (i + 1) (load url (i + 3) (len - i - 3))
          urlDecodeLoop fuel url (i + 1) (len - 2)
        | _, _ => urlDecodeLoop fuel url (i + 1) len
      else urlDecodeLoop fuel url (i + 1) len
    else (url, i)

/-- `URLDecode(url)`; every round moves `i` forward, so `strlen` rounds suffice. -/
def urlDecode (url : Bytes) : Bytes × Nat :=
  urlDecodeLoop (strlen url) url 0 (strlen url)

/-- Value of one character of `DecodeB64`; `none` is a bad character. -/
def b64Value (c : UInt8) : Option Nat :=
  if 65 ≤ c && c ≤ 90 then some (c.toNat - 65)
  else if 97 ≤ c && c ≤ 122 then some (c.toNat - 97 + 26)
  else if 48 ≤ c && c ≤ 57 then some (c.toNat - 48 + 52)
  else if c == 43 then some 62
  else if 47 ≤ c then some 63
  else none

/-- The loop of `DecodeB64`: `valid` characters so far, the bits not yet written. -/
def decodeB64Loop : Bytes → Nat → Nat → Bytes → Bytes
  | [], valid, bits, out =>
    if valid % 4 = 3 then out ++ [(bits / 1024).toUInt8, (bits / 4).toUInt8]
    else if valid % 4 = 2 then out ++ [(bits / 16).toUInt8]
    else out
  | c :: cs, valid, bits, out =>
    if c == 13 || c == 10 || c == 61 then decodeB64Loop cs valid bits out
    else
      match b64Value c with
      | none => []
      | some v =>
        let bits := bits * 64 + v
        if (valid + 1) % 4 = 0 then
          decodeB64Loop cs (valid + 1) 0
            (out ++ [(bits / 65536).toUInt8, (bits / 256).toUInt8, bits.toUInt8])
        else decodeB64Loop cs (valid + 1) bits out

/-- `DecodeB64(data)`: the decoded bytes; a bad character leaves none. -/
def decodeB64 (data : Bytes) : Bytes := decodeB64Loop (cstr data) 0 0 []

/-- `contentTypes[]` without its closing entry. -/
def contentTypes : List (Bytes × Bytes) :=
  [(ascii "html", ascii "text/html"), (ascii "htm", ascii "text/html"),
   (ascii "shtml", ascii "text/html"), (ascii "shtm", ascii "text/html"),
   (ascii "ssi", ascii "text/html"), (ascii "css", ascii "text/css"),
   (ascii "json", ascii "application/json"), (ascii "js", ascii "application/javascript"),
   (ascii "gif", ascii "image/gif"), (ascii "png", ascii "image/png"),
   (ascii "jpg", ascii "image/jpeg"), (ascii "bmp", ascii "image/bmp"),
   (ascii "ico", ascii "image/x-icon"), (ascii "mp4", ascii "video/mp4"),
   (ascii "flv", ascii "video/x-flv"), (ascii "3gp", ascii "video/3gpp"),
   (ascii "mov", ascii "video/quicktime"), (ascii "avi", ascii "video/x-msvideo"),
   (ascii "wmv", ascii "video/x-ms-wmv"), (ascii "class", ascii "application/octet-stream"),
   (ascii "cls", ascii "application/octet-stream"),
   (ascii "swf", ascii "application/x-shockwave-flash"),
   (ascii "ram", ascii "application/javascript"), (ascii "pdf", ascii "application/pdf"),
   (ascii "dat", ascii "application/dat"), (ascii "xml", ascii "text/xml"),
   (ascii "xsl", ascii "text/xml")]

/-- `GetContentType(extension)`. -/
def getContentType (extension : Bytes) : Bytes :=
  match contentTypes.find? fun t => t.1.length == strlen extension && hasPrefix extension t.1 with
  | some t => t.2
  | none => ascii "text/plain"

/-! ## Dates -/

def monName : List Bytes :=
  [ascii "Jan", ascii "Feb", ascii "Mar", ascii "Apr", ascii "May", ascii "Jun",
   ascii "Jul", ascii "Aug", ascii "Sep", ascii "Oct", ascii "Nov", ascii "Dec"]

/-- Days from 1970-01-01 to the first of the month `mon` (January is 0, any integer)
of `year`. -/
def daysBeforeMonth (year mon : Int) : Int :=
  let y := year + mon.fdiv 12
  let m := mon.fmod 12 + 1
  let y' := if m ≤ 2 then y - 1 else y
  let m' := if m ≤ 2 then m + 9 else m - 3
  y' * 365 + y'.fdiv 4 - y'.fdiv 100 + y'.fdiv 400 + (153 * m' + 2) / 5 - 719468

/-- `mktime` in the time zone of the board (UTC); fields out of range carry over. -/
def mktime (year mon mday hour min sec : Int) : Int :=
  (daysBeforeMonth year mon + (mday - 1)) * 86400 + hour * 3600 + min * 60 + sec

/-- `parseHttpDate(s)`, the fields at their fixed columns. -/
def parseHttpDate (s : Bytes) : Int :=
  let mon := (monName.findIdx? fun name => strnicmp (s.drop 8) name 3 == 0).elim (-1) Int.ofNat
  mktime (atol (s.drop 12)) mon (atol (s.drop 5)) (atol (s.drop 17)) (atol (s.drop 20))
    (atol (s.drop 23))

example : parseHttpDate (ascii "Fri, 02 Oct 2015 07:28:00 GMT") = 1443770880 := by
  decide +kernel

/-- The numbers of `GetIpAddress` behind the first: one behind each of the next `n` dots. -/
def ipLoop : Nat → Nat → Bytes → Nat
  | 0, ip, _ => ip
  | n + 1, ip, p =>
    match (cstr p).dropWhile (· != 46) with
    | [] => ip
    | _ :: p => ipLoop n (((ip : Int) * 256 + atol p).emod 4294967296).toNat p

/-- `GetIpAddress(addr)`. -/
def getIpAddress (addr : Bytes) : Nat := ipLoop 3 ((atol addr).emod 256).toNat addr

/-! ## Lemmas -/

theorem urlDecodeLoop_length (fuel : Nat) (url : Bytes) (i len : Nat) :
    (urlDecodeLoop fuel url i len).1.length = url.length := by
  induction fuel generalizing url i len with
  | zero => rfl
  | succ fuel ih =>
    rw [urlDecodeLoop]
    split
    · split
      · exact ih ..
      · split
        · split
          · rw [ih, length_store, length_store]
          · exact ih ..
        · exact ih ..
    · rfl

@[simp] theorem length_urlDecode (url : Bytes) : (urlDecode url).1.length = url.length :=
  urlDecodeLoop_length ..

/-- The scan stops inside the string it was given. -/
theorem urlDecodeLoop_le (fuel : Nat) (url : Bytes) (i len : Nat) (h : i ≤ len) :
    (urlDecodeLoop fuel url i len).2 ≤ len := by
  induction fuel generalizing url i len with
  | zero => exact h
  | succ fuel ih =>
    rw [urlDecodeLoop]
    split
    · rename_i hi
      split
      · exact ih _ _ _ (by omega)
      · split
        · split
          · exact le_trans (ih _ _ _ (by omega)) (by omega)
          · exact ih _ _ _ (by omega)
        · exact ih _ _ _ (by omega)
    · exact h

theorem urlDecode_le (url : Bytes) : (urlDecode url).2 ≤ strlen url :=
  urlDecodeLoop_le _ _ _ _ (Nat.zero_le _)

end Httpd
