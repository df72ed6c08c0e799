import LambdaIOT.Httpd.Pages

/-!
# Opening a page

`WEB_RequestReceived` opens the file of the response path, looks at its first bytes and its
date, and leaves the handle in `SSI_Context`. `webRequestReceived_opened` says what comes out
when the file is there; a page without tags is then ready to be read (`FileReady`), unless
the client has it already.
-/

namespace Httpd

open CMem

theorem filePtr_slot {addr i : Nat} (h : filePtr addr = .slot i) : addr < 4294967296 := by
  rw [filePtr] at h
  split at h
  · cases h
  · split at h
    · rename_i hslot
      have hbase : handleBase = 268439552 := rfl
      have hsize : handleSize = 8 := rfl
      have hmax : maxFiles = 32 := rfl
      rw [hbase, hsize, hmax] at hslot
      omega
    · cases h

/-! ## The file of a request -/

/-- The file of the response path is there, and a slot is free for it. -/
structure FileFound (c : Call) (content : Bytes) : Prop where
  slots : c.w.fs.opened.length = maxFiles
  free : ∃ x ∈ c.w.fs.opened, x.pFileInfo = none
  found : ∃ info, (c.w.fs.entries.find? fun f => strEq (defaultPath c.r).responsePath f.name)
    = some info ∧ c.w.fs.Holds info content

/-- The client has the page already: `WEB_RequestReceived` answers 304. -/
def NotModified (h : Request) (c : Call) : Prop :=
  isSsiExtension (defaultPath c.r).extension = false ∧
    c.w.fs.webFtime (defaultPath c.r).responsePath ≠ 0 ∧ h.ifModified ≠ 0 ∧
    (c.w.fs.webFtime (defaultPath c.r).responsePath : Int) ≤ h.ifModified

instance (h : Request) (c : Call) : Decidable (NotModified h c) :=
  inferInstanceAs (Decidable (_ ∧ _ ∧ _ ∧ _))

/-- The context of an open page. -/
def openContext (c : Call) (fp : Nat) (lastModified : Bytes) : SSIContext :=
  { SSIContext.zero with
    valid := 1
    ssi := if isSsiExtension (defaultPath c.r).extension then 1 else 0
    fp := fp
    lastModified := store SSIContext.zero.lastModified 0 lastModified }

/-- The `Last-Modified` line of an open page. -/
def modifiedLine (c : Call) : Bytes :=
  if isSsiExtension (defaultPath c.r).extension then []
  else if c.w.fs.webFtime (defaultPath c.r).responsePath = 0 then 0 :: ascii "ast-Modified: " ++ [0]
  else ascii "Last-Modified: " ++ crlf ++ [0]

/-- The response once the file is open. -/
def openResponse (h : Request) (c : Call) (content : Bytes) : Response :=
  let r := defaultPath c.r
  { r with options := { r.options with
      chunkEnabled := r.options.chunkEnabled || (isSsiExtension r.extension && h.handler.isSome)
      gzip := r.options.gzip || isGzip (some (load content 0 (min content.length 3))) } }

theorem openContext_fits (c : Call) {fp : Nat} (hfp : fp < 4294967296) (lastModified : Bytes) :
    (openContext c fp lastModified).Fits := by
  have hzero : SSIContext.zero.Fits := ofBytes_fits (by rw [List.length_replicate])
  have hssi : ∀ b : Bool, -32768 ≤ (if b then (1 : Int) else 0) ∧
      (if b then (1 : Int) else 0) < 32768 := by decide
  exact { hzero with
    valid := (show (-32768 : Int) ≤ 1 ∧ (1 : Int) < 32768 by decide)
    ssi := hssi _
    fp := hfp
    lastModified := (length_store ..).trans hzero.lastModified }

theorem length_defaultPath (r : Response) : (defaultPath r).mem.length = r.mem.length := by
  rw [defaultPath]
  split
  · rfl
  · rfl

/-- `WEB_RequestReceived` of a file that is there. -/
theorem webRequestReceived_opened {h : Request} {c : Call} {content : Bytes}
    (hfound : FileFound c content) :
    ∃ fs fp, fs.OpenFile fp content 0 ∧ fp < 4294967296 ∧
      webRequestReceived h c =
        if NotModified h c then
          { w := { c.w with fs := fs }
            r := { openResponse h c content with result := codeNotModified }.setSsi
              (openContext c fp (ascii "Last-Modified: " ++ [0])) }
        else
          { w := { c.w with fs := fs }
            r := { openResponse h c content with fileHandle := fp, dwTotal := content.length }.setSsi
              (openContext c fp (modifiedLine c)) } := by
  obtain ⟨info, hfind, hholds⟩ := hfound.found
  obtain ⟨hopen, -, htable, -⟩ := FileSystem.webFopen_table (defaultPath c.r).responsePath
    (ascii "rb") hfound.slots hfind hholds hfound.free
  generalize hfs : c.w.fs.webFopen (defaultPath c.r).responsePath (ascii "rb") = opened
    at hopen htable
  obtain ⟨i, finfo, hslot, -⟩ := hopen.at_slot
  -- The three bytes that tell a packed file, and the way back.
  obtain ⟨fs₁, hread, hopen₁, -, htable₁⟩ := hopen.webFread (show (0 : Int) ≤ 3 by decide)
  obtain ⟨fs₂, hseek, hopen₂, -, htable₂⟩ := hopen₁.webFseek (Nat.zero_le content.length)
  have hseek' : fs₁.webFseek opened.2 0 = some fs₂ := hseek
  have htime : fs₂.webFtime (defaultPath c.r).responsePath
      = c.w.fs.webFtime (defaultPath c.r).responsePath := by
    rw [FileSystem.webFtime, FileSystem.webFtime, FileSystem.entries, FileSystem.entries, htable₂,
      htable₁, htable]
  have hthree : min (content.length - 0) (3 : Int).toNat = min content.length 3 := rfl
  refine ⟨fs₂, opened.2, hopen₂, filePtr_slot hslot, ?_⟩
  rw [webRequestReceived]
  simp only [hfs, ne_eq, hopen.ne_zero, not_false_eq_true, if_true]
  rw [webFileOpened]
  simp only [hread, hseek', hthree, Option.isSome_some, if_true, Option.getD_some, htime,
    hopen₂.webFsize]
  by_cases hssi : isSsiExtension (defaultPath c.r).extension = true
  · have hnot : ¬ NotModified h c := fun hn => by
      have huntagged := hn.1
      rw [hssi] at huntagged
      cases huntagged
    rw [if_neg hnot]
    simp only [openContext, modifiedLine, openResponse, hssi, if_true, ne_eq, one_ne_zero,
      false_and, if_false, not_false_eq_true]
  · have hssi' : isSsiExtension (defaultPath c.r).extension = false := by simpa using hssi
    by_cases hn : NotModified h c
    · rw [if_pos hn]
      simp only [openContext, openResponse, hssi', Bool.false_eq_true, if_false, true_and, hn.2.1,
        hn.2.2.1, hn.2.2.2, ne_eq, not_false_eq_true, if_true]
    · rw [if_neg hn]
      have hn' : ¬ (c.w.fs.webFtime (defaultPath c.r).responsePath ≠ 0 ∧ h.ifModified ≠ 0 ∧
          (c.w.fs.webFtime (defaultPath c.r).responsePath : Int) ≤ h.ifModified) :=
        fun hc => hn ⟨hssi', hc⟩
      simp only [openContext, modifiedLine, openResponse, hssi', Bool.false_eq_true, if_false,
        true_and, ne_eq, not_true_eq_false]
      rw [if_neg hn']

/-! ## A page without tags -/

/-- A page without tags that is ready to be read. -/
structure FileReady (h : Request) (c c' : Call) (content : Bytes) : Prop where
  untagged : c'.r.ssi.ssi = 0
  file : c'.w.fs.OpenFile c'.r.ssi.fp content 0
  modified : lastModifiedOf c'.r =
    if c.w.fs.webFtime (defaultPath c.r).responsePath = 0 then [] else ascii "Last-Modified: " ++ crlf
  mem : c'.r.mem.length = memSize
  rest : c'.r = { openResponse h c content with
    fileHandle := c'.r.ssi.fp, dwTotal := content.length, mem := c'.r.mem }

/-- `_lastModified`, when it ends in its array. -/
theorem lastModifiedOf_ssi {r : Response} (hmem : r.mem.length = memSize)
    (hshort : strlen r.ssi.lastModified < 64) : lastModifiedOf r = cstr r.ssi.lastModified := by
  have hfits := (ssi_fits hmem).lastModified
  refine (cstr_take ?_).symm
  change strlen r.ssi.lastModified < r.ssi.lastModified.length
  rw [hfits]
  exact hshort

/-- `WEB_RequestReceived` of a page without tags. -/
theorem webRequestReceived_ready {h : Request} {c : Call} {content : Bytes}
    (hfound : FileFound c content) (hmem : c.r.mem.length = memSize)
    (huntagged : isSsiExtension (defaultPath c.r).extension = false) (hnew : ¬ NotModified h c) :
    FileReady h c (webRequestReceived h c) content := by
  obtain ⟨fs, fp, hopen, hfp, hcall⟩ := webRequestReceived_opened (h := h) hfound
  rw [if_neg hnew] at hcall
  have hlen : ({ openResponse h c content with fileHandle := fp, dwTotal := content.length } :
      Response).mem.length = memSize := (length_defaultPath c.r).trans hmem
  have hx := ssi_setSsi hlen (openContext_fits c hfp (modifiedLine c))
  have hlen' : (({ openResponse h c content with fileHandle := fp, dwTotal := content.length } :
      Response).setSsi (openContext c fp (modifiedLine c))).mem.length = memSize :=
    (length_store ..).trans hlen
  have hline : cstr (openContext c fp (modifiedLine c)).lastModified =
      if c.w.fs.webFtime (defaultPath c.r).responsePath = 0 then []
      else ascii "Last-Modified: " ++ crlf := by
    rw [openContext, modifiedLine, huntagged]
    dsimp only
    rw [if_neg Bool.false_ne_true]
    split
    · decide
    · decide
  rw [hcall]
  constructor
  · rw [hx, openContext, huntagged]
    rfl
  · rw [hx]
    exact hopen
  · rw [lastModifiedOf_ssi hlen', hx, hline]
    rw [hx, strlen, hline]
    split
    · decide
    · decide
  · exact hlen'
  · rw [hx]
    rfl

/-! ## Reading it -/

/-- A run of calls on a page without tags before its end: the bytes returned are the first
ones of the content, and the stage has counted the calls. -/
structure Reading (h : Request) (content : Bytes) (first : Nat) (c : Call) (ms : Nat → Int)
    (k : Nat) : Prop where
  read : PlainRead content first (afterCalls h c ms k)
  total : (afterCalls h c ms k).r.dwTotal = c.r.dwTotal
  bytes : callBytes h c ms k = load content first (afterCalls h c ms k).r.dwOperIndex.toNat
  stage : (afterCalls h c ms k).r.dwOperStage = k
  index : (k : Int) ≤ (afterCalls h c ms k).r.dwOperIndex
  more : (afterCalls h c ms k).r.dwOperIndex < c.r.dwTotal

section

variable {h : Request} {content : Bytes} {first : Nat} {c : Call} {ms : Nat → Int}

theorem Reading.small {k : Nat} (hr : Reading h content first c ms k) : c.r.dwTotal < 2147483648 := by
  obtain ⟨_, _, -, -, -, hholds⟩ := hr.read.file.at_slot
  have hsmall := hholds.small
  have hinside := hr.read.inside
  rw [hr.total] at hinside
  omega

theorem Reading.not_ended {k : Nat} (hr : Reading h content first c ms k) : ¬ Ended h c ms k := by
  intro hended
  have hindex := hr.index
  have hmore := hr.more
  have hsmall := hr.small
  have hlast : stageEnd = 4294967295 := rfl
  rw [Ended, hr.stage, hlast] at hended
  omega

/-- One call: the run goes on, or the content is read. -/
theorem Reading.step {k : Nat} (hmethod : h.requestMethod ≠ .none)
    (hr : Reading h content first c ms k) (hsize : 0 < ms k) :
    (afterCalls h c ms k).r.dwOperIndex < (afterCalls h c ms (k + 1)).r.dwOperIndex ∧
      (Reading h content first c ms (k + 1) ∨ (Ended h c ms (k + 1) ∧
        callBytes h c ms (k + 1) = load content first c.r.dwTotal.toNat)) := by
  have hsmall := hr.small
  obtain ⟨hnonneg, hin⟩ := hr.read.index
  have hmore := hr.more
  have hindex := hr.index
  have htotal := hr.total
  obtain ⟨fs, n, hn, hcall, hnext⟩ := hr.read.webReadPlain (Int.le_of_lt hsize)
  have hplain : webReadContent h (afterCalls h c ms k) (ms k)
      = webReadPlain (afterCalls h c ms k) (ms k) := by
    rw [webReadContent, if_neg hmethod, if_neg (by omega), if_pos hr.read.untagged]
  have hafter : afterCalls h c ms (k + 1) = (webReadPlain (afterCalls h c ms k) (ms k)).call := by
    rw [afterCalls, hplain]
  have hidx : (afterCalls h c ms (k + 1)).r.dwOperIndex
      = (afterCalls h c ms k).r.dwOperIndex + n := by
    rw [hafter, hcall]
  have hstage : (afterCalls h c ms (k + 1)).r.dwOperStage
      = readStage k ((afterCalls h c ms k).r.dwOperIndex + n) c.r.dwTotal := by
    rw [hafter, hcall]
    change readStage (afterCalls h c ms k).r.dwOperStage _ (afterCalls h c ms k).r.dwTotal = _
    rw [hr.stage, hr.total]
  have htotal' : (afterCalls h c ms (k + 1)).r.dwTotal = c.r.dwTotal := by
    rw [hafter, hcall]
    exact hr.total
  have hbytes : callBytes h c ms (k + 1)
      = load content first ((afterCalls h c ms k).r.dwOperIndex + n).toNat := by
    have hsum : ((afterCalls h c ms k).r.dwOperIndex + n).toNat
        = (afterCalls h c ms k).r.dwOperIndex.toNat + n.toNat := by omega
    rw [callBytes, hplain, hcall, hr.bytes, hsum, load_add]
  refine ⟨by omega, ?_⟩
  by_cases hdone : c.r.dwTotal ≤ (afterCalls h c ms k).r.dwOperIndex + n
  · right
    rw [readStage, if_pos hdone] at hstage
    refine ⟨hstage, ?_⟩
    rw [hbytes, show (afterCalls h c ms k).r.dwOperIndex + n = c.r.dwTotal by omega]
  · left
    rw [readStage, if_neg hdone] at hstage
    refine ⟨?_, htotal', ?_, ?_, by omega, by omega⟩
    · rw [hafter]
      exact hnext
    · rw [hbytes, hidx]
    · rw [hstage]
      omega

/-- From any point of a run on, by induction on the bytes that are not read. -/
theorem Reading.finish {k : Nat} (hmethod : h.requestMethod ≠ .none) (hsize : ∀ i, 0 < ms i)
    (hr : Reading h content first c ms k) (hbefore : ∀ j < k, ¬ Ended h c ms j) :
    ∃ n, Ended h c ms n ∧ (∀ j < n, ¬ Ended h c ms j) ∧
      callBytes h c ms n = load content first c.r.dwTotal.toNat := by
  generalize hleft : (c.r.dwTotal - (afterCalls h c ms k).r.dwOperIndex).toNat = left
  induction left using Nat.strong_induction_on generalizing k with
  | _ left ih =>
    have hmore := hr.more
    have hbefore' : ∀ j < k + 1, ¬ Ended h c ms j := by
      intro j hj
      rcases Nat.lt_succ_iff_lt_or_eq.mp hj with hj | rfl
      · exact hbefore j hj
      · exact hr.not_ended
    obtain ⟨hforward, hnext | ⟨hended, hbytes⟩⟩ := hr.step hmethod (hsize k)
    · exact ih _ (by omega) hnext hbefore' rfl
    · exact ⟨k + 1, hended, hbefore', hbytes⟩

/-- The calls on a page without tags come to an end, and they return its content. -/
theorem plain_calls (hmethod : h.requestMethod ≠ .none) (hread : PlainRead content first c)
    (hindex : c.r.dwOperIndex = 0) (hstage : c.r.dwOperStage = 0) (htotal : 0 < c.r.dwTotal)
    (hsize : ∀ i, 0 < ms i) :
    ∃ n, Ended h c ms n ∧ (∀ j < n, ¬ Ended h c ms j) ∧
      callBytes h c ms n = load content first c.r.dwTotal.toNat := by
  have hstart : Reading h content first c ms 0 := by
    refine ⟨hread, rfl, ?_, hstage, ?_, ?_⟩
    · change [] = load content first c.r.dwOperIndex.toNat
      rw [hindex]
      rfl
    · change ((0 : Nat) : Int) ≤ c.r.dwOperIndex
      rw [hindex]
      exact Int.le_refl 0
    · change c.r.dwOperIndex < c.r.dwTotal
      rw [hindex]
      exact htotal
  exact hstart.finish hmethod hsize fun j hj => absurd hj (Nat.not_lt_zero j)

end

end Httpd
