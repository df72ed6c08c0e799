import LambdaIOT.Httpd.Web

/-!
# Reading a file of the web root

What `WEB_fread` and `WEB_fseek` do with an open file, said once: `OpenFile` is the whole
state of a read, and a read of `n` bytes returns the next `n` bytes of the file, or what
is left of it.
-/

namespace Httpd

open CMem

namespace FileSystem

/-- The image holds `content` as the file `info`, whose size fits a `long`. -/
structure Holds (fs : FileSystem) (info : FileInfo) (content : Bytes) : Prop where
  size : info.nSize = content.length
  small : content.length < 2147483648
  bytes : ∀ pos n, pos + n ≤ content.length → fs.fileBytes info pos n = load content pos n

/-- `fp` is a handle of the file with this content, read up to `pos`. -/
structure OpenFile (fs : FileSystem) (fp : Nat) (content : Bytes) (pos : Nat) : Prop where
  at_slot : ∃ i info, filePtr fp = .slot i ∧ i < fs.opened.length ∧
    fs.handle i = ⟨some info, pos⟩ ∧ fs.Holds info content
  inside : pos ≤ content.length

/-- Handles are not part of the image. -/
theorem Holds.setHandle {fs : FileSystem} {info : FileInfo} {content : Bytes}
    (h : fs.Holds info content) (i : Nat) (x : FileHandle) :
    (fs.setHandle i x).Holds info content :=
  ⟨h.size, h.small, h.bytes⟩

theorem handle_setHandle {fs : FileSystem} {i : Nat} (hi : i < fs.opened.length) (x : FileHandle) :
    (fs.setHandle i x).handle i = x := by
  simp only [handle, setHandle, List.getD_eq_getElem?_getD, List.getElem?_set_self hi,
    Option.getD_some]

theorem OpenFile.ne_zero {fs : FileSystem} {fp : Nat} {content : Bytes} {pos : Nat}
    (h : fs.OpenFile fp content pos) : fp ≠ 0 := by
  obtain ⟨i, info, hslot, -⟩ := h.at_slot
  rintro rfl
  rw [filePtr_zero] at hslot
  cases hslot

/-- A read returns the next bytes, as many as were asked for or as there are. -/
theorem OpenFile.webFread {fs : FileSystem} {fp : Nat} {content : Bytes} {pos : Nat}
    (h : fs.OpenFile fp content pos) {count : Int} (hcount : 0 ≤ count) :
    ∃ fs', fs.webFread fp count
        = some (fs', some (load content pos (min (content.length - pos) count.toNat))) ∧
      fs'.OpenFile fp content (pos + min (content.length - pos) count.toNat) ∧
      fs'.image = fs.image ∧ fs'.table = fs.table := by
  obtain ⟨i, info, hslot, hlt, hhandle, hholds⟩ := h.at_slot
  have hsize := hholds.size
  have hsmall := hholds.small
  have hin := h.inside
  have hleft : subAsInt info.nSize pos = (content.length - pos : Nat) := by
    simp only [subAsInt]
    rw [hsize]
    have hmod : (((content.length : Nat) : Int) - (pos : Nat)).emod 4294967296
        = (content.length - pos : Nat) := by
      change (((content.length : Nat) : Int) - (pos : Nat)) % 4294967296 = _
      omega
    rw [hmod, if_pos (by omega)]
  have hn : min (subAsInt info.nSize pos) count = (min (content.length - pos) count.toNat : Nat) := by
    rw [hleft]
    omega
  have hbytes : fs.fileBytes info pos (min (content.length - pos) count.toNat)
      = load content pos (min (content.length - pos) count.toNat) :=
    hholds.bytes _ _ (by omega)
  have hlen : (load content pos (min (content.length - pos) count.toNat)).length
      = min (content.length - pos) count.toNat :=
    length_load (by omega)
  have hnext : (pos + min (content.length - pos) count.toNat) % 4294967296
      = pos + min (content.length - pos) count.toNat := Nat.mod_eq_of_lt (by omega)
  refine ⟨fs.setHandle i ⟨some info, pos + min (content.length - pos) count.toNat⟩, ?_, ?_, rfl, rfl⟩
  · rw [FileSystem.webFread, hslot]
    dsimp only
    rw [hhandle]
    dsimp only
    rw [hn, if_neg (by omega), Int.toNat_natCast, hbytes, if_pos hlen, hnext]
  · refine ⟨⟨i, info, hslot, ?_, handle_setHandle hlt _, hholds.setHandle ..⟩, by omega⟩
    change i < (fs.opened.set i _).length
    rw [List.length_set]
    exact hlt

/-- A seek to a position inside the file. -/
theorem OpenFile.webFseek {fs : FileSystem} {fp : Nat} {content : Bytes} {pos off : Nat}
    (h : fs.OpenFile fp content pos) (hoff : off ≤ content.length) :
    ∃ fs', fs.webFseek fp off = some fs' ∧ fs'.OpenFile fp content off ∧
      fs'.image = fs.image ∧ fs'.table = fs.table := by
  obtain ⟨i, info, hslot, hlt, hhandle, hholds⟩ := h.at_slot
  have hsmall := hholds.small
  have hpos : ((off : Int).emod 4294967296).toNat = off := by
    change ((off : Int) % 4294967296).toNat = off
    omega
  refine ⟨fs.setHandle i ⟨some info, off⟩, ?_, ?_, rfl, rfl⟩
  · rw [FileSystem.webFseek, hslot]
    dsimp only
    rw [hhandle, hpos]
  · refine ⟨⟨i, info, hslot, ?_, handle_setHandle hlt _, hholds.setHandle ..⟩, hoff⟩
    change i < (fs.opened.set i _).length
    rw [List.length_set]
    exact hlt

/-- The size of an open file. -/
theorem OpenFile.webFsize {fs : FileSystem} {fp : Nat} {content : Bytes} {pos : Nat}
    (h : fs.OpenFile fp content pos) : fs.webFsize fp = some (content.length : Int) := by
  obtain ⟨i, info, hslot, hlt, hhandle, hholds⟩ := h.at_slot
  rw [FileSystem.webFsize, hslot]
  dsimp only
  rw [hhandle]
  exact congrArg some (congrArg _ hholds.size)

/-- With a slot free the file gets one. -/
theorem allocate_free {fs : FileSystem} (hfree : ∃ x ∈ fs.opened, x.pFileInfo = none)
    (info : FileInfo) : ∃ i, i < fs.opened.length ∧
      fs.allocate info = (fs.setHandle i ⟨some info, 0⟩, handleAddr i) := by
  obtain ⟨x, hx, hnone⟩ := hfree
  obtain ⟨i, hidx⟩ : ∃ i, fs.opened.findIdx? (fun h => h.pFileInfo.isNone) = some i := by
    rw [← Option.isSome_iff_exists, List.findIdx?_isSome, List.any_eq_true]
    exact ⟨x, hx, by rw [hnone]; rfl⟩
  refine ⟨i, ?_, by rw [allocate, hidx]⟩
  rw [List.findIdx?_eq_some_iff_getElem] at hidx
  exact hidx.1

theorem handleAddr_ne_zero (i : Nat) : handleAddr i ≠ 0 := by
  simp only [handleAddr, handleBase]
  omega

/-- Opening a file of the table with a slot free: the handle is at its start. -/
theorem webFopen_table {fs : FileSystem} {content : Bytes} {info : FileInfo} (path mode : Bytes)
    (hslots : fs.opened.length = maxFiles)
    (hfind : (fs.entries.find? fun f => strEq path f.name) = some info)
    (hholds : fs.Holds info content)
    (hfree : ∃ x ∈ fs.opened, x.pFileInfo = none) :
    (fs.webFopen path mode).1.OpenFile (fs.webFopen path mode).2 content 0 ∧
      (fs.webFopen path mode).1.image = fs.image ∧ (fs.webFopen path mode).1.table = fs.table ∧
      (fs.webFopen path mode).1.opened.length = maxFiles := by
  obtain ⟨i, hi, halloc⟩ := allocate_free hfree info
  have hslot : filePtr (handleAddr i) = .slot i := filePtr_handleAddr (by omega)
  have haddr : handleAddr i ≠ 0 := handleAddr_ne_zero i
  have hopen : fs.webFopen path mode = (fs.setHandle i ⟨some info, 0⟩, handleAddr i) := by
    rw [webFopen]
    simp only [hfind, halloc]
    rw [if_pos haddr]
  have hlen : (fs.setHandle i ⟨some info, 0⟩).opened.length = maxFiles := by
    change (fs.opened.set i _).length = maxFiles
    rw [List.length_set, hslots]
  have hi' : i < (fs.setHandle i ⟨some info, 0⟩).opened.length := by
    rw [hlen, ← hslots]
    exact hi
  rw [hopen]
  exact ⟨⟨⟨i, info, hslot, hi', handle_setHandle hi _, hholds.setHandle ..⟩, Nat.zero_le _⟩,
    rfl, rfl, hlen⟩

end FileSystem

/-! ## Successive calls of `WEB_ReadContent` -/

/-- The state after `k` calls of `WEB_ReadContent` with the sizes `ms`. -/
def afterCalls (h : Request) (c : Call) (ms : Nat → Int) : Nat → Call
  | 0 => c
  | k + 1 => (webReadContent h (afterCalls h c ms k) (ms k)).call

/-- What these calls return, one after the other. -/
def callBytes (h : Request) (c : Call) (ms : Nat → Int) : Nat → Bytes
  | 0 => []
  | k + 1 => callBytes h c ms k ++ (webReadContent h (afterCalls h c ms k) (ms k)).out

/-- The stage of the call after `k` calls: nothing is read any more. -/
def Ended (h : Request) (c : Call) (ms : Nat → Int) (k : Nat) : Prop :=
  (afterCalls h c ms k).r.dwOperStage = stageEnd

instance (h : Request) (c : Call) (ms : Nat → Int) (k : Nat) : Decidable (Ended h c ms k) :=
  inferInstanceAs (Decidable (_ = _))

/-! ## A page without tags -/

/-- A page without tags between two calls of `WEB_ReadContent`: `_dwTotal` bytes from `first`
on are the content, and the file is read up to `_dwOperIndex` of them. -/
structure PlainRead (content : Bytes) (first : Nat) (c : Call) : Prop where
  untagged : c.r.ssi.ssi = 0
  index : 0 ≤ c.r.dwOperIndex ∧ c.r.dwOperIndex ≤ c.r.dwTotal
  inside : first + c.r.dwTotal ≤ content.length
  file : c.w.fs.OpenFile c.r.ssi.fp content (first + c.r.dwOperIndex.toNat)

/-- The stage behind a read. -/
def readStage (stage : Nat) (dwOperIndex dwTotal : Int) : Nat :=
  if dwTotal ≤ dwOperIndex then stageEnd else (stage + 1) % 4294967296

/-- One call: the next bytes of the content, as many as fit or as are left. -/
theorem PlainRead.webReadPlain {content : Bytes} {first : Nat} {c : Call}
    (h : PlainRead content first c) {maxSize : Int} (hsize : 0 ≤ maxSize) :
    ∃ fs n, n = min (c.r.dwTotal - c.r.dwOperIndex) maxSize ∧ webReadPlain c maxSize =
        ⟨{ w := { c.w with fs := fs }
           r := { c.r with
            dwOperIndex := c.r.dwOperIndex + n
            dwOperStage := readStage c.r.dwOperStage (c.r.dwOperIndex + n) c.r.dwTotal } }, n,
          load content (first + c.r.dwOperIndex.toNat) n.toNat⟩ ∧
      PlainRead content first (webReadPlain c maxSize).call := by
  obtain ⟨hindex, htotal⟩ := h.index
  have hinside := h.inside
  have huntagged := h.untagged
  obtain ⟨fs, hread, hopen, -, -⟩ := h.file.webFread
    (show 0 ≤ min (c.r.dwTotal - c.r.dwOperIndex) maxSize by omega)
  have hn : min (content.length - (first + c.r.dwOperIndex.toNat))
      (min (c.r.dwTotal - c.r.dwOperIndex) maxSize).toNat
      = (min (c.r.dwTotal - c.r.dwOperIndex) maxSize).toNat := by omega
  rw [hn] at hread hopen
  generalize hmin : min (c.r.dwTotal - c.r.dwOperIndex) maxSize = n at hread hopen
  have hlen : (load content (first + c.r.dwOperIndex.toNat) n.toNat).length = n.toNat :=
    length_load (by omega)
  have hcast : ((n.toNat : Nat) : Int) = n := by omega
  have hcall : Httpd.webReadPlain c maxSize =
      ⟨{ w := { c.w with fs := fs }
         r := { c.r with
          dwOperIndex := c.r.dwOperIndex + n
          dwOperStage := readStage c.r.dwOperStage (c.r.dwOperIndex + n) c.r.dwTotal } }, n,
        load content (first + c.r.dwOperIndex.toNat) n.toNat⟩ := by
    rw [Httpd.webReadPlain]
    dsimp only
    rw [if_neg h.file.ne_zero, hmin, hread]
    dsimp only
    rw [hlen, hcast, webAdvance, readStage]
    dsimp only
    by_cases hdone : c.r.dwTotal ≤ c.r.dwOperIndex + n
    · rw [if_pos hdone, if_pos ⟨hdone, by omega⟩]
    · rw [if_neg hdone, if_neg fun hand => hdone hand.1]
      rfl
  refine ⟨fs, n, rfl, hcall, ?_⟩
  rw [hcall]
  refine ⟨h.untagged, ⟨?_, ?_⟩, h.inside, ?_⟩
  · change 0 ≤ c.r.dwOperIndex + n
    omega
  · change c.r.dwOperIndex + n ≤ c.r.dwTotal
    omega
  · have hpos : first + (c.r.dwOperIndex + n).toNat = first + c.r.dwOperIndex.toNat + n.toNat := by
      omega
    change fs.OpenFile c.r.ssi.fp content (first + (c.r.dwOperIndex + n).toNat)
    rw [hpos]
    exact hopen

end Httpd
