import LambdaIOT.Httpd.Utils

/-!
# `http_fs.c`: files of the web root and the fake files

The build has no local file system, so a file is an entry of the image that the build
tool writes into `g_szWebRoot`, or one of the fake files that read as `'A'`s. The table
of entries is a list; the file contents stay one image addressed by offset, because a
negative seek position reads in front of a file and not in front of the image.

A handle is the address of a slot of `g_FileOpened[MAX_FILES]`. Handles travel through
raw memory (see `SSIContext`), so every function resolves the address first; `none` as
the whole result is an access through an address that is no slot.
-/

namespace Httpd

open CMem

def maxFiles : Nat := 32

/-- `http_file_info`; `nOffsetFileData = 0` marks a fake file. -/
structure FileInfo where
  name : Bytes
  nSize : Nat
  tLastModified : Nat
  nOffsetFileData : Nat
  deriving DecidableEq

/-- `file_handle`; a free slot has no file. -/
structure FileHandle where
  pFileInfo : Option FileInfo
  lReadPos : Nat
  deriving DecidableEq

/-- `g_szWebRoot` and `g_FileOpened`. -/
structure FileSystem where
  table : List FileInfo
  image : Bytes
  opened : List FileHandle
  deriving DecidableEq

/-- The name `sprintf(.., "@@FakeFile%03dMB.dat", nSize >> 20)` gives. -/
def fakeName (nSize : Nat) : Bytes :=
  ascii "@@FakeFile" ++ zeroPad 3 (decimalNat (nSize / 1048576)) ++ ascii "MB.dat"

/-- The fake file of `mb` megabytes, written `minutes` after the first. -/
def fakeFile (mb minutes : Nat) : FileInfo where
  name := fakeName (mb * 1048576)
  nSize := mb * 1048576
  tLastModified := 1605130877 + minutes * 60
  nOffsetFileData := 0

/-- `fakeFiles[]` without its closing entry. -/
def fakeFiles : List FileInfo :=
  [fakeFile 1 0, fakeFile 2 1, fakeFile 8 2, fakeFile 16 3, fakeFile 64 4, fakeFile 128 5,
   fakeFile 256 6]

/-- The table after `WEB_fs_init`: every slot is free. -/
def closedHandle : FileHandle := ⟨none, 0⟩

def webFsInit (table : List FileInfo) (image : Bytes) : FileSystem :=
  ⟨table, image, List.replicate maxFiles closedHandle⟩

/-! ## Handles -/

/-- Where `g_FileOpened` lies, and the size of a slot. -/
def handleBase : Nat := 0x10001000
def handleSize : Nat := 8

/-- Address of slot `i`. -/
def handleAddr (i : Nat) : Nat := handleBase + handleSize * i

/-- What a `void*` file handle is. -/
inductive FilePtr where
  | null
  | slot (i : Nat)
  | wild
  deriving DecidableEq

def filePtr (addr : Nat) : FilePtr :=
  if addr = 0 then .null
  else if handleBase ≤ addr ∧ (addr - handleBase) % handleSize = 0 ∧
      (addr - handleBase) / handleSize < maxFiles then .slot ((addr - handleBase) / handleSize)
  else .wild

namespace FileSystem

def handle (fs : FileSystem) (i : Nat) : FileHandle := fs.opened.getD i closedHandle

def setHandle (fs : FileSystem) (i : Nat) (h : FileHandle) : FileSystem :=
  { fs with opened := fs.opened.set i h }

/-- The entries that a search comes to: the table ends at the first one without a date. -/
def entries (fs : FileSystem) : List FileInfo := fs.table.takeWhile fun f => f.tLastModified != 0

/-- Take the first free slot for `f`; all slots taken gives the null handle. -/
def allocate (fs : FileSystem) (f : FileInfo) : FileSystem × Nat :=
  match fs.opened.findIdx? fun h => h.pFileInfo.isNone with
  | some i => (fs.setHandle i ⟨some f, 0⟩, handleAddr i)
  | none => (fs, 0)

/-- `WEB_fopen(szFile, mode)`. A name of the table for which no slot is free falls
through to the fake files. -/
def webFopen (fs : FileSystem) (szFile mode : Bytes) : FileSystem × Nat :=
  let inTable := match fs.entries.find? fun f => strEq szFile f.name with
    | some f => fs.allocate f
    | none => (fs, 0)
  if inTable.2 ≠ 0 then inTable
  else
    match fakeFiles.find? fun f => (strstr szFile f.name).isSome || (cstr mode).contains 119 with
    | some f => fs.allocate f
    | none => (fs, 0)

/-- `WEB_ftime(szFile, buf, maxSize)`; `buf` is not written. -/
def webFtime (fs : FileSystem) (szFile : Bytes) : Nat :=
  match fs.entries.find? fun f => strEq szFile f.name with
  | some f => f.tLastModified
  | none =>
    match fakeFiles.find? fun f => strEq szFile f.name with
    | some f => f.tLastModified
    | none => 0

/-- `WEB_fseek(f, offset)`; the position is an `unsigned long`. -/
def webFseek (fs : FileSystem) (f : Nat) (offset : Int) : Option FileSystem :=
  match filePtr f with
  | .null => some fs
  | .wild => none
  | .slot i =>
    some (fs.setHandle i { fs.handle i with lReadPos := (offset.emod 4294967296).toNat })

/-- `WEB_fclose(f)`, and `WEB_closedir`. -/
def webFclose (fs : FileSystem) (f : Nat) : Option FileSystem :=
  match filePtr f with
  | .null => some fs
  | .wild => none
  | .slot i => some (fs.setHandle i closedHandle)

/-- `WEB_fsize(f)`, a `long`. -/
def webFsize (fs : FileSystem) (f : Nat) : Option Int :=
  match filePtr f with
  | .null => some 0
  | .wild => none
  | .slot i => some ((fs.handle i).pFileInfo.elim 0 fun info => info.nSize)

/-- An `unsigned long` difference read as an `int`. -/
def subAsInt (a b : Nat) : Int :=
  let d := ((a : Int) - b).emod 4294967296
  if d < 2147483648 then d else d - 4294967296

/-- The bytes of file `info` from position `pos` on. A position behind `2^31` is in front
of the file. -/
def fileBytes (fs : FileSystem) (info : FileInfo) (pos n : Nat) : Bytes :=
  if info.nOffsetFileData = 0 then List.replicate n 65
  else load fs.image ((info.nOffsetFileData + pos) % 4294967296) n

/-- `WEB_fread(f, buf, count, bytes)`: the bytes read, or `some none` where it returns
-1. A negative count makes `memcpy` run away. -/
def webFread (fs : FileSystem) (f : Nat) (count : Int) : Option (FileSystem × Option Bytes) :=
  match filePtr f with
  | .null => some (fs, none)
  | .wild => none
  | .slot i =>
    match (fs.handle i).pFileInfo with
    | none => some (fs, none)
    | some info =>
      let nCount := min (subAsInt info.nSize (fs.handle i).lReadPos) count
      if nCount < 0 then none
      else
        let bs := fs.fileBytes info (fs.handle i).lReadPos nCount.toNat
        if bs.length = nCount.toNat then
          some (fs.setHandle i { fs.handle i with
            lReadPos := ((fs.handle i).lReadPos + nCount.toNat) % 4294967296 }, some bs)
        else none

/-- `WEB_fwrite(f, buf, toWrite)` accepts everything. -/
def webFwrite (toWrite : Int) : Int := toWrite

/-- `WEB_firstdir(..)`: the first fake file, whatever the filter. -/
def webFirstdir (fs : FileSystem) : FileSystem × Nat := fs.allocate (fakeFile 1 0)

/-- `WEB_readdir(hFind, ..)`: the next fake file, if there is one. -/
def webReaddir (fs : FileSystem) (hFind : Nat) : Option (FileSystem × Option FileInfo) :=
  match filePtr hFind with
  | .null => some (fs, none)
  | .wild => none
  | .slot i =>
    let pos := (fs.handle i).lReadPos + 1
    let next := fakeFiles[pos]?
    some (fs.setHandle i ⟨some (next.getD ⟨[], 0, 0, 0⟩), pos⟩, next)

end FileSystem

/-! ## Lemmas -/

theorem filePtr_zero : filePtr 0 = .null := rfl

theorem filePtr_handleAddr {i : Nat} (h : i < maxFiles) : filePtr (handleAddr i) = .slot i := by
  have hsub : handleAddr i - handleBase = handleSize * i := Nat.add_sub_cancel_left ..
  have hdiv : handleSize * i / handleSize = i := Nat.mul_div_cancel_left i (by decide)
  have hne : handleAddr i ≠ 0 := Nat.ne_of_gt (Nat.lt_of_lt_of_le (by decide) (Nat.le_add_right ..))
  rw [filePtr, if_neg hne, if_pos, hsub, hdiv]
  refine ⟨Nat.le_add_right .., ?_, ?_⟩
  · rw [hsub]
    exact Nat.mul_mod_right ..
  · rw [hsub, hdiv]
    exact h

namespace FileSystem

/-- A successful read returns at most what was asked for. -/
theorem webFread_length {fs fs' : FileSystem} {f : Nat} {count : Int} {bs : Bytes}
    (h : fs.webFread f count = some (fs', some bs)) : (bs.length : Int) ≤ count := by
  unfold webFread at h
  split at h
  · cases h
  · cases h
  · split at h
    · cases h
    · dsimp only at h
      split at h
      · cases h
      · split at h
        · rename_i hlen
          simp only [Option.some.injEq, Prod.mk.injEq] at h
          obtain ⟨-, rfl⟩ := h
          omega
        · cases h

end FileSystem

end Httpd
