import LambdaIOT.Httpd.Downloads
import LambdaIOT.Httpd.Reach

/-!
# What a page with tags turns into

A page is read by successive calls of `WEB_ReadContent`, each with a size of its own.
The first half says what a call needs to stay inside its objects: names that fit, room for
the value of a tag that ends, and room for the cache when the file is at its end. The
second half says what the calls return together: the expansion of the page, as long as the
part that is still in the cache when the file is at its end has nothing to be replaced.
-/

namespace Httpd

open CMem Template

/-! ## Pages and calls -/

/-- A GET or POST for a page with tags whose content is about to be read. -/
structure PageStart (h : Request) (content : Bytes) (c : Call) : Prop where
  method : h.requestMethod ≠ .none
  mem : c.r.mem.length = memSize
  tags : 0 < c.r.ssi.ssi
  state : c.r.ssi.ssiState = 0
  length : c.r.ssi.tagLength = 0
  name : c.r.ssi.tagName = List.replicate 64 0
  offset : c.r.ssi.cacheOffset = 0
  index : c.r.dwOperIndex = 0
  stage : c.r.dwOperStage = 0
  total : c.r.dwTotal = content.length
  file : c.w.fs.OpenFile c.r.ssi.fp content 0
  fine : c.r.fault = false

theorem PageStart.inv {h : Request} {content : Bytes} {c : Call} (hs : PageStart h content c) :
    PageInv content c where
  mem := hs.mem
  scan := {
    fits := ssi_fits hs.mem
    offset := by
      change 0 ≤ c.r.ssi.cacheOffset ∧ c.r.ssi.cacheOffset ≤ 64
      rw [hs.offset]
      decide
    consumed := by
      change (0 : Int) ≤ c.r.ssi.cacheOffset
      rw [hs.offset]
    state := .inl hs.state
    length := by
      change 0 ≤ c.r.ssi.tagLength ∧ c.r.ssi.tagLength < 64
      rw [hs.length]
      decide
    idle := fun _ => hs.length
    ended := by
      change at' c.r.ssi.tagName c.r.ssi.tagLength.toNat = 0
      rw [hs.length, hs.name]
      rfl }
  space := by
    rw [hs.offset]
    decide
  tags := hs.tags
  index := by rw [hs.index]
  total := hs.total
  file := by
    rw [hs.index]
    exact hs.file
  fine := hs.fine

theorem PageStart.toState {h : Request} {content : Bytes} {c : Call} (hs : PageStart h content c) :
    pageState content c = ⟨.copy, content, []⟩ := by
  have hmode : (pageScan c.r).mode = .copy := by
    rw [SsiScan.mode, if_neg]
    change ¬ c.r.ssi.ssiState = 2
    rw [hs.state]
    decide
  have hwindow : (pageScan c.r).window = [] := by
    change (c.r.ssi.cache.take c.r.ssi.cacheOffset.toNat).drop 0 = []
    rw [hs.offset]
    rfl
  rw [pageState, SsiScan.toState, hmode, hwindow, hs.index]
  rfl

/-- The three cases of a call on a page. -/
theorem webReadContent_page {h : Request} (hmethod : h.requestMethod ≠ .none) {content : Bytes}
    {c : Call} (hi : PageInv content c) (m : Int) :
    webReadContent h c m =
      if c.r.dwOperIndex = content.length then webReadEnd c else webReadSsi c m := by
  have htags := hi.tags
  have htotal := hi.total
  rw [webReadContent, if_neg hmethod]
  by_cases hend : c.r.dwOperIndex = content.length
  · rw [if_pos hend, if_pos (by omega)]
  · rw [if_neg hend, if_neg (by omega), if_neg (by omega)]

/-- `WEB_RequestReceived` for a page of the web root, followed by the reset of the counters in
`HttpResponseProc`, is such a start. -/
theorem pageStart_webRequestReceived {h : Request} {c : Call} {content : Bytes}
    (hmethod : h.requestMethod ≠ .none) (hmem : c.r.mem.length = memSize)
    (hfound : FileFound c content) (hssi : isSsiExtension (defaultPath c.r).extension = true)
    (hpath : (defaultPath c.r).fault = false) :
    PageStart h content { webRequestReceived h c with
      r := { (webRequestReceived h c).r with dwOperIndex := 0, dwOperStage := 0 } } := by
  obtain ⟨fs, fp, hopen, hfp, hcall⟩ := webRequestReceived_opened (h := h) hfound
  have hnot : ¬ NotModified h c := fun hn => by
    have huntagged := hn.1
    rw [hssi] at huntagged
    cases huntagged
  rw [if_neg hnot] at hcall
  have hlen : ({ openResponse h c content with fileHandle := fp, dwTotal := content.length } :
      Response).mem.length = memSize := (length_defaultPath c.r).trans hmem
  have hx := ssi_setSsi hlen (openContext_fits c hfp (modifiedLine c))
  have hsame : ({ ({ openResponse h c content with fileHandle := fp, dwTotal := content.length } :
      Response).setSsi (openContext c fp (modifiedLine c)) with
        dwOperIndex := 0, dwOperStage := 0 } : Response).ssi = openContext c fp (modifiedLine c) := hx
  rw [hcall]
  constructor
  · exact hmethod
  · exact (length_store ..).trans hlen
  · rw [hsame, openContext, hssi]
    exact Int.one_pos
  · rw [hsame]
    rfl
  · rw [hsame]
    rfl
  · rw [hsame]
    rfl
  · rw [hsame]
    rfl
  · rfl
  · rfl
  · rfl
  · rw [hsame]
    exact hopen
  · exact hpath

/-! ## The calls of `ReplaceTag` -/

/-- The next round finds the end of a tag. -/
def SsiScan.endsTag (s : SsiScan) : Prop :=
  s.x.ssiState = 2 ∧ at' s.x.cache s.consumed = at' tagEnd 0 ∧
    3 ≤ s.x.cacheOffset - s.consumed ∧ hasPrefix (s.x.cache.drop s.consumed) tagEnd = true

instance (s : SsiScan) : Decidable s.endsTag := inferInstanceAs (Decidable (_ ∧ _ ∧ _ ∧ _))

/-- The values of `maxAllowed` in the loop over the cache, beside `SsiScan.loop`. -/
def SsiScan.allowed (d : Device) (maxSize : Int) : Nat → SsiScan → List Int
  | 0, _ => []
  | fuel + 1, s =>
    if (s.consumed : Int) < s.x.cacheOffset ∧ s.ready = false ∧ s.bad = false then
      let s := if s.x.ssiState = 0 then { s with x := { s.x with ssiState := 1 } } else s
      let here := if s.endsTag then [maxSize - s.out.length - 50] else []
      match s.round d maxSize with
      | some s' => here ++ SsiScan.allowed d maxSize fuel s'
      | none => here
    else []

/-- The same over the rounds of a call, beside `ssiLoop`. -/
def ssiAllowed (d : Device) (dwTotal maxSize : Int) : Nat → SsiRead → List Int
  | 0, _ => []
  | fuel + 1, s =>
    if s.dwOperIndex < dwTotal ∧ s.scan.ready = false ∧ s.scan.bad = false ∧ s.failed = false then
      let maxRead := min (dwTotal - s.dwOperIndex) (64 - s.scan.x.cacheOffset)
      let here :=
        match s.fs.webFread s.scan.x.fp maxRead with
        | some (_, some bs) =>
          (s.scan.fill bs).allowed d maxSize (s.scan.x.cacheOffset + bs.length).toNat
        | _ => []
      here ++ ssiAllowed d dwTotal maxSize fuel (ssiRound d dwTotal maxSize s)
    else []

/-- The values of `maxAllowed` in one call of `WEB_ReadContent` on a page with tags. -/
def webAllowed (c : Call) (maxSize : Int) : List Int :=
  if c.r.dwTotal - c.r.dwOperIndex = 0 then []
  else ssiAllowed c.w.dev c.r.dwTotal maxSize (2 * (c.r.dwTotal - c.r.dwOperIndex).toNat + 2)
    ⟨c.w.fs, c.r.dwOperIndex, pageScan c.r, false⟩

section

variable {content : Bytes} {d : Device} {maxSize : Int}

/-- In the loop over the cache, by induction on its rounds: a tag ends only at the start of
the output, and then there is room. -/
theorem allowed_nonneg (unread : Bytes) (fuel : Nat) {s : SsiScan} (h : ScanOk s)
    (hrun : s.ready = false → Running maxSize (s.toState unread)) :
    ∀ n ∈ SsiScan.allowed d maxSize fuel s, 0 ≤ n := by
  induction fuel generalizing s with
  | zero =>
    intro n hn
    cases hn
  | succ fuel ih =>
    rw [SsiScan.allowed]
    split
    case isFalse =>
      intro n hn
      cases hn
    case isTrue hgo =>
      obtain ⟨hmore, hready, hfine⟩ := hgo
      dsimp only
      obtain ⟨t, ht, hok, hstarted, hcons, hcache, hsame, -, -, -, -⟩ :=
        begin_scan unread h
      rw [← ht]
      have hrun' : Running maxSize (t.toState unread) := by
        rw [hsame]
        exact hrun hready
      have hhere : ∀ n ∈ (if t.endsTag then [maxSize - (t.out.length : Int) - 50] else []), 0 ≤ n := by
        intro n hn
        split at hn
        case isFalse => cases hn
        case isTrue hends =>
          obtain ⟨hstate, -, hthree, hp⟩ := hends
          have hname : t.mode = .name (t.x.tagName.take t.x.tagLength.toNat) := by
            rw [SsiScan.mode, if_pos hstate]
          have hstop : tagEnd <+: t.window ++ unread :=
            (prefix_window hok (show ((tagEnd.length : Nat) : Int) ≤ _ from hthree)).mp
              ((hasPrefix_tagEnd _).mp hp)
          have hout : t.out = [] := hrun'.naming (by
            change t.mode ≠ _
            rw [hname]
            rintro ⟨⟩)
          have hsize : 50 ≤ maxSize := by
            refine hrun'.closing ?_
            change NameCloses pageMarkers t.mode (t.window ++ unread)
            rw [hname]
            exact nameCloses_stop hstop
          rw [List.mem_singleton.mp hn, hout, List.length_nil]
          omega
      rcases round_advanced (d := d) hok hstarted (by omega) hrun' with
        ⟨t', hround, hnext, -⟩ | ⟨hround, -⟩
      · rw [hround]
        intro n hn
        rcases List.mem_append.mp hn with hn | hn
        · exact hhere n hn
        · exact ih hnext.ok hnext.running n hn
      · rw [hround]
        exact hhere

/-- Over the rounds of a call, by induction on them. -/
theorem ssiAllowed_nonneg (fuel : Nat) {s : SsiRead} (h : PageRead content s)
    (hroom : (s.scan.out.length : Int) ≤ max maxSize 0)
    (hrun : s.scan.ready = false → Running maxSize (s.toState content)) :
    ∀ n ∈ ssiAllowed d content.length maxSize fuel s, 0 ≤ n := by
  induction fuel generalizing s with
  | zero =>
    intro n hn
    cases hn
  | succ fuel ih =>
    rw [ssiAllowed]
    split
    case isFalse =>
      intro n hn
      cases hn
    case isTrue hgo =>
      obtain ⟨hmore, hready, -, -⟩ := hgo
      have hturn := (ssiRound_turned (d := d) h (hrun hready) hready hmore hroom).1
      dsimp only
      intro n hn
      rcases List.mem_append.mp hn with hn | hn
      · have hoff := h.scan.offset
        have hspace := h.space
        have hindex := h.index
        have hinside := h.file.inside
        obtain ⟨fs', hread, -, -, -⟩ := h.file.webFread
          (show 0 ≤ min ((content.length : Int) - s.dwOperIndex) (64 - s.scan.x.cacheOffset) by omega)
        rw [hread] at hn
        dsimp only at hn
        generalize hk : min (content.length - s.dwOperIndex.toNat)
          (min ((content.length : Int) - s.dwOperIndex) (64 - s.scan.x.cacheOffset)).toNat = k at hn
        have hbs : (load content s.dwOperIndex.toNat k).length = k := length_load (by omega)
        have hfit : s.scan.x.cacheOffset + (load content s.dwOperIndex.toNat k).length ≤ 64 := by
          rw [hbs]
          omega
        have hnext : load content s.dwOperIndex.toNat k
            ++ content.drop (s.dwOperIndex.toNat + k) = content.drop s.dwOperIndex.toNat := by
          rw [load, ← List.drop_drop, List.take_append_drop]
        refine allowed_nonneg (content.drop (s.dwOperIndex.toNat + k)) _
          (fill_ok h.scan hfit) ?_ n hn
        intro _
        rw [fill_toState h.scan hfit h.fresh, hnext]
        exact hrun hready
      · exact ih hturn.page hturn.room hturn.running n hn

end

/-! ## The calls stay inside their objects -/

/-- One call of `WEB_ReadContent` on a page with tags: it comes back without having left its
objects, the context is in its bounds, `ReplaceTag` had room, and no more than `maxSize`
bytes are returned. -/
structure SafeCall (h : Request) (c : Call) (maxSize : Int) : Prop where
  fine : (webReadContent h c maxSize).call.r.fault = false
  offset : 0 ≤ (webReadContent h c maxSize).call.r.ssi.cacheOffset ∧
    (webReadContent h c maxSize).call.r.ssi.cacheOffset ≤ 64
  length : 0 ≤ (webReadContent h c maxSize).call.r.ssi.tagLength ∧
    (webReadContent h c maxSize).call.r.ssi.tagLength < 64
  ended : at' (webReadContent h c maxSize).call.r.ssi.tagName
    (webReadContent h c maxSize).call.r.ssi.tagLength.toNat = 0
  allowed : ∀ n ∈ webAllowed c maxSize, 0 ≤ n
  size : ((webReadContent h c maxSize).out.length : Int) ≤ max maxSize 0

/-- What a call needs. At the end of the file the cache has to fit the size. Before it, the
name being read is at most 63 bytes long, a tag that ends has 50 bytes, and a byte that is
copied has one. -/
def CallRoom (content : Bytes) (c : Call) (maxSize : Int) : Prop :=
  if c.r.dwOperIndex = content.length then c.r.ssi.cacheOffset ≤ max maxSize 0
  else NameFits pageMarkers 63 (pageState content c).mode (pageState content c).rest ∧
    (NameCloses pageMarkers (pageState content c).mode (pageState content c).rest → 50 ≤ maxSize) ∧
    ((pageState content c).mode = .copy → Emits (pageState content c).rest → 1 ≤ maxSize)

instance (content : Bytes) (c : Call) (maxSize : Int) : Decidable (CallRoom content c maxSize) := by
  unfold CallRoom
  infer_instance

theorem CallRoom.running {content : Bytes} {c : Call} {maxSize : Int}
    (hroom : CallRoom content c maxSize) (hmore : c.r.dwOperIndex ≠ content.length) :
    Running maxSize (pageState content c) := by
  rw [CallRoom, if_neg hmore] at hroom
  obtain ⟨hfits, hcloses, hcopies⟩ := hroom
  exact ⟨hfits, hcloses, fun _ => rfl, fun hcopy => .inr ⟨rfl, hcopies hcopy⟩⟩

/-- What one call does when it has the room it needs. -/
theorem safeCall_of_room {h : Request} {content : Bytes} {c : Call} (maxSize : Int)
    (hmethod : h.requestMethod ≠ .none) (hi : PageInv content c)
    (hroom : CallRoom content c maxSize) :
    SafeCall h c maxSize ∧ ((webReadContent h c maxSize).call.r.dwOperStage ≠ stageEnd →
      PageInv content (webReadContent h c maxSize).call) := by
  have hcall := webReadContent_page hmethod hi maxSize
  have htotal := hi.total
  by_cases hend : c.r.dwOperIndex = content.length
  · rw [if_pos hend] at hcall
    obtain ⟨hout, hstage, hfine, -, hssi⟩ := webReadEnd_page hi hend
    have hlen : (webReadEnd c).out.length = c.r.ssi.cacheOffset.toNat := by
      have hwindow := length_window hi.scan
      rw [hout]
      change ((pageScan c.r).window ++ content.drop c.r.dwOperIndex.toNat).length = _
      rw [hend, Int.toNat_natCast, List.drop_length, List.append_nil, hwindow]
      rfl
    have hoff : 0 ≤ c.r.ssi.cacheOffset ∧ c.r.ssi.cacheOffset ≤ 64 := hi.scan.offset
    rw [CallRoom, if_pos hend] at hroom
    constructor
    · constructor
      · rw [hcall]
        exact hfine
      · rw [hcall, hssi]
        exact ⟨Int.le_refl 0, (show (0 : Int) ≤ 64 by decide)⟩
      · rw [hcall, hssi]
        exact hi.scan.length
      · rw [hcall, hssi]
        exact hi.scan.ended
      · intro n hn
        rw [webAllowed, if_pos (by omega)] at hn
        cases hn
      · rw [hcall, hlen]
        omega
    · intro hno
      rw [hcall] at hno
      exact absurd hstage hno
  · rw [if_neg hend] at hcall
    have hinside := hi.file.inside
    have hindex := hi.index
    have hrun := hroom.running hend
    obtain ⟨hinv, -, -, -, hsize, -, -⟩ := webReadSsi_page hi (by omega) hrun
    rw [hcall]
    refine ⟨⟨?_, ?_, ?_, ?_, ?_, ?_⟩, fun _ => hinv⟩
    · rw [hcall]
      exact hinv.fine
    · rw [hcall]
      exact hinv.scan.offset
    · rw [hcall]
      exact hinv.scan.length
    · rw [hcall]
      exact hinv.scan.ended
    · intro n hn
      rw [webAllowed, if_neg (by omega), htotal] at hn
      have hpage : PageRead content ⟨c.w.fs, c.r.dwOperIndex, pageScan c.r, false⟩ :=
        ⟨hi.scan, rfl, hi.space, hi.index, hi.file, rfl, rfl⟩
      exact ssiAllowed_nonneg _ hpage (le_max_right maxSize 0) (fun _ => hrun) n hn
    · rw [hcall]
      exact hsize

/-- The calls that are made: none behind the end. -/
def Made (h : Request) (c : Call) (ms : Nat → Int) (k : Nat) : Prop :=
  ∀ j ≤ k, ¬ Ended h c ms j

/-- A run of calls of which each has the room it needs: all of them are safe. -/
theorem page_calls_safe {h : Request} {content : Bytes} {c : Call} (ms : Nat → Int)
    (hstart : PageStart h content c)
    (hroom : ∀ k, Made h c ms k → CallRoom content (afterCalls h c ms k) (ms k)) :
    ∀ k, Made h c ms k → SafeCall h (afterCalls h c ms k) (ms k) := by
  have hinv : ∀ k, Made h c ms k → PageInv content (afterCalls h c ms k) := by
    intro k
    induction k with
    | zero => exact fun _ => hstart.inv
    | succ k ih =>
      intro hmade
      have hbefore : Made h c ms k := fun j hj => hmade j (Nat.le_succ_of_le hj)
      have hstep := safeCall_of_room (ms k) hstart.method (ih hbefore) (hroom k hbefore)
      exact hstep.2 (hmade (k + 1) (Nat.le_refl _))
  intro k hmade
  exact (safeCall_of_room _ hstart.method (hinv k hmade) (hroom k hmade)).1

/-! ## What the calls return -/

/-- With the room of a whole block a tag is replaced by all of its value. -/
theorem tagValue_full {d : Device} {maxSize : Int} (hsize : 128 ≤ maxSize) :
    tagValue d maxSize = tagText d := by
  funext nm
  have hlen := length_tagText_le d nm
  have htext : replaceTagLen d nm (maxSize - 50) = (tagText d nm).length := by
    unfold replaceTagLen
    dsimp only
    split
    · rename_i hnone
      rw [hnone]
      rfl
    · rw [if_neg (by omega)]
  rw [tagValue, replaceTag, htext, Int.toNat_natCast, List.take_length]

/-- The meaning of a page from a mode on: each tag is replaced by the value of its name. -/
abbrev pageText (d : Device) (mode : Mode UInt8) (text : Bytes) : Bytes :=
  expand pageMarkers (tagText d) 0 mode text

/-- What the cache holds when the file is read to its end has nothing to be replaced. -/
def TailPlain (content : Bytes) (c : Call) : Prop :=
  c.r.dwOperIndex = content.length →
    pageText c.w.dev (pageState content c).mode (pageState content c).rest
      = (pageState content c).rest

instance (content : Bytes) (c : Call) : Decidable (TailPlain content c) :=
  inferInstanceAs (Decidable (_ → _))

/-- A run of calls before its end: what is returned and what is still to come make up the
expansion of the page, and the stage has counted the calls. -/
structure Expanding (h : Request) (content : Bytes) (c : Call) (ms : Nat → Int) (k : Nat) :
    Prop where
  page : PageInv content (afterCalls h c ms k)
  dev : (afterCalls h c ms k).w.dev = c.w.dev
  closed : Closed pageMarkers 63 (pageState content (afterCalls h c ms k)).mode
    (pageState content (afterCalls h c ms k)).rest
  bytes : pageText c.w.dev .copy content = callBytes h c ms k
    ++ pageText c.w.dev (pageState content (afterCalls h c ms k)).mode
      (pageState content (afterCalls h c ms k)).rest
  stage : (afterCalls h c ms k).r.dwOperStage = k
  index : (k : Int) ≤ (afterCalls h c ms k).r.dwOperIndex

section

variable {h : Request} {content : Bytes} {c : Call} {ms : Nat → Int}

theorem expanding_start (hstart : PageStart h content c) (htagged : Tagged pageMarkers 63 content) :
    Expanding h content c ms 0 where
  page := hstart.inv
  dev := rfl
  closed := by
    change Closed pageMarkers 63 (pageState content c).mode (pageState content c).rest
    rw [hstart.toState]
    exact htagged
  bytes := by
    change _ = [] ++ pageText _ (pageState content c).mode (pageState content c).rest
    rw [hstart.toState]
    rfl
  stage := hstart.stage
  index := by
    change ((0 : Nat) : Int) ≤ c.r.dwOperIndex
    rw [hstart.index]
    exact Int.le_refl 0

/-- The stage has not reached its last value: each call has read a byte of the file. -/
theorem Expanding.not_ended {k : Nat} (hexp : Expanding h content c ms k) : ¬ Ended h c ms k := by
  intro hended
  have hstage := hexp.stage
  have hindex := hexp.index
  have hnonneg := hexp.page.index
  have hinside := hexp.page.file.inside
  obtain ⟨_, _, -, -, -, hholds⟩ := hexp.page.file.at_slot
  have hsmall := hholds.small
  have hlast : stageEnd = 4294967295 := rfl
  rw [Ended, hstage, hlast] at hended
  omega

/-- A call before the end of the file: the run goes on, or the page is done. -/
theorem Expanding.step {k : Nat} (hmethod : h.requestMethod ≠ .none)
    (hexp : Expanding h content c ms k) (hsize : 128 ≤ ms k)
    (hmore : (afterCalls h c ms k).r.dwOperIndex ≠ content.length) :
    (afterCalls h c ms k).r.dwOperIndex < (afterCalls h c ms (k + 1)).r.dwOperIndex ∧
      (Expanding h content c ms (k + 1) ∨ (Ended h c ms (k + 1) ∧
        callBytes h c ms (k + 1) = pageText c.w.dev .copy content)) := by
  have hpage := hexp.page
  have hnonneg := hpage.index
  have hinside := hpage.file.inside
  obtain ⟨_, _, -, -, -, hholds⟩ := hpage.file.at_slot
  have hsmall := hholds.small
  have hrun : Running (ms k) (pageState content (afterCalls h c ms k)) :=
    ⟨hexp.closed.nameFits, fun _ => by omega, fun _ => rfl, fun _ => .inr ⟨rfl, fun _ => by omega⟩⟩
  obtain ⟨hinv, hdev, -, hsteps, -, hforward, hstage⟩ := webReadSsi_page hpage (by omega) hrun
  have hcall : webReadContent h (afterCalls h c ms k) (ms k)
      = webReadSsi (afterCalls h c ms k) (ms k) := by
    rw [webReadContent_page hmethod hpage, if_neg hmore]
  have hafter : afterCalls h c ms (k + 1) = (webReadSsi (afterCalls h c ms k) (ms k)).call := by
    rw [afterCalls, hcall]
  have hbytes : callBytes h c ms (k + 1)
      = callBytes h c ms k ++ (webReadSsi (afterCalls h c ms k) (ms k)).out := by
    rw [callBytes, hcall]
  rw [tagValue_full hsize, hexp.dev] at hsteps
  rw [← hafter] at hinv hdev hsteps hforward hstage
  have hclosed := hexp.closed.steps hsteps
  have htext : pageText c.w.dev .copy content = callBytes h c ms (k + 1)
      ++ pageText c.w.dev (pageState content (afterCalls h c ms (k + 1))).mode
        (pageState content (afterCalls h c ms (k + 1))).rest := by
    have hsame := hsteps.expand
    change [] ++ pageText _ _ _ = _ ++ pageText _ _ _ at hsame
    rw [List.nil_append] at hsame
    rw [hexp.bytes, hbytes, hsame, List.append_assoc]
  refine ⟨hforward, ?_⟩
  by_cases hdone : (afterCalls h c ms (k + 1)).r.dwOperIndex = content.length ∧
      (afterCalls h c ms (k + 1)).r.ssi.cacheOffset = 0
  · right
    rw [if_pos hdone] at hstage
    refine ⟨hstage, ?_⟩
    have hrest : (pageState content (afterCalls h c ms (k + 1))).rest = [] := by
      change (((afterCalls h c ms (k + 1)).r.ssi.cache.take
        (afterCalls h c ms (k + 1)).r.ssi.cacheOffset.toNat).drop 0)
          ++ content.drop (afterCalls h c ms (k + 1)).r.dwOperIndex.toNat = []
      rw [hdone.1, hdone.2, Int.toNat_natCast, List.drop_length]
      rfl
    rw [htext, hrest, pageText, expand_nil, List.append_nil]
  · left
    have hindex := hexp.index
    have hinside' := hinv.file.inside
    have hnonneg' := hinv.index
    refine ⟨hinv, hdev.trans hexp.dev, hclosed, htext, ?_, by omega⟩
    rw [hstage, if_neg hdone, hexp.stage]
    omega

/-- The call that finds the file read to its end returns what is in the cache. -/
theorem Expanding.last {k : Nat} (hmethod : h.requestMethod ≠ .none)
    (hexp : Expanding h content c ms k)
    (hend : (afterCalls h c ms k).r.dwOperIndex = content.length) :
    Ended h c ms (k + 1) ∧ (callBytes h c ms (k + 1) = pageText c.w.dev .copy content ↔
      TailPlain content (afterCalls h c ms k)) := by
  obtain ⟨hout, hstage, -⟩ := webReadEnd_page hexp.page hend
  have hcall : webReadContent h (afterCalls h c ms k) (ms k) = webReadEnd (afterCalls h c ms k) := by
    rw [webReadContent_page hmethod hexp.page, if_pos hend]
  constructor
  · rw [Ended, afterCalls, hcall]
    exact hstage
  · rw [callBytes, hcall, hout, hexp.bytes, List.append_cancel_left_eq, TailPlain, hexp.dev]
    constructor
    · intro hsame _
      exact hsame.symm
    · intro hplain
      exact (hplain hend).symm

/-- From any point of a run on, by induction on the bytes of the file that are not read. -/
theorem Expanding.finish {k : Nat} (hmethod : h.requestMethod ≠ .none) (hsize : ∀ i, 128 ≤ ms i)
    (hexp : Expanding h content c ms k)
    (hbefore : ∀ j < k, ¬ Ended h c ms j ∧ (afterCalls h c ms j).r.dwOperIndex ≠ content.length) :
    ∃ n, Ended h c ms n ∧ (∀ j < n, ¬ Ended h c ms j) ∧
      (callBytes h c ms n = pageText c.w.dev .copy content ↔
        ∀ j < n, TailPlain content (afterCalls h c ms j)) := by
  generalize hleft : ((content.length : Int) - (afterCalls h c ms k).r.dwOperIndex).toNat = left
  induction left using Nat.strong_induction_on generalizing k with
  | _ left ih =>
    have hinside := hexp.page.file.inside
    have hnonneg := hexp.page.index
    have hall : ∀ j < k + 1, ¬ Ended h c ms j := by
      intro j hj
      rcases Nat.lt_succ_iff_lt_or_eq.mp hj with hj | rfl
      · exact (hbefore j hj).1
      · exact hexp.not_ended
    have hplain : ∀ j < k, TailPlain content (afterCalls h c ms j) :=
      fun j hj hend => absurd hend (hbefore j hj).2
    by_cases hend : (afterCalls h c ms k).r.dwOperIndex = content.length
    · obtain ⟨hended, hiff⟩ := hexp.last hmethod hend
      refine ⟨k + 1, hended, hall, hiff.trans ⟨fun hk j hj => ?_, fun hk => hk k (Nat.lt_succ_self k)⟩⟩
      rcases Nat.lt_succ_iff_lt_or_eq.mp hj with hj | rfl
      · exact hplain j hj
      · exact hk
    · have hbefore' : ∀ j < k + 1, ¬ Ended h c ms j ∧
          (afterCalls h c ms j).r.dwOperIndex ≠ content.length := by
        intro j hj
        refine ⟨hall j hj, ?_⟩
        rcases Nat.lt_succ_iff_lt_or_eq.mp hj with hj | rfl
        · exact (hbefore j hj).2
        · exact hend
      obtain ⟨hforward, hnext | ⟨hended, hbytes⟩⟩ := hexp.step hmethod (hsize k) hend
      · have hinside' := hnext.page.file.inside
        have hnonneg' := hnext.page.index
        exact ih _ (by omega) hnext hbefore' rfl
      · exact ⟨k + 1, hended, hall, iff_of_true hbytes
          fun j hj hfull => absurd hfull (hbefore' j hj).2⟩

end

/-- The calls on a page whose tags are all closed come to an end, and they return the
expansion of the page exactly when the cache has nothing to replace at the end of the file. -/
theorem page_calls_expand_iff {h : Request} {content : Bytes} {c : Call} (ms : Nat → Int)
    (hstart : PageStart h content c) (htagged : Tagged pageMarkers 63 content)
    (hsize : ∀ i, 128 ≤ ms i) :
    ∃ n, Ended h c ms n ∧ (∀ j < n, ¬ Ended h c ms j) ∧
      (callBytes h c ms n = pageText c.w.dev .copy content ↔
        ∀ j < n, TailPlain content (afterCalls h c ms j)) :=
  (expanding_start hstart htagged).finish hstart.method hsize (fun _ hj => absurd hj (Nat.not_lt_zero _))

/-! ## A page to try -/

/-- The call with which the reading of a page of this content begins. -/
def pageOf (content : Bytes) : Call where
  w := { plainWorld with
    fs := {
      table := []
      image := 0 :: content
      opened := (List.replicate maxFiles closedHandle).set 0 ⟨some ⟨[], content.length, 0, 1⟩, 0⟩ } }
  r := { setupContext.toResponse with dwTotal := content.length }.setSsi
    { SSIContext.zero with valid := 1, ssi := 1, fp := handleAddr 0 }

/-- A GET request. -/
def pageRequest : Request := { setupContext.toRequest with requestMethod := .get }

theorem pageStart_pageOf {content : Bytes} (hlen : content.length < 2147483648) :
    PageStart pageRequest content (pageOf content) := by
  have hfits : ({ SSIContext.zero with valid := 1, ssi := 1, fp := handleAddr 0 } : SSIContext).Fits :=
    { ofBytes_fits (m := List.replicate SSIContext.size 0) (by rw [List.length_replicate]) with
      valid := (show (-32768 : Int) ≤ 1 ∧ (1 : Int) < 32768 by decide)
      ssi := (show (-32768 : Int) ≤ 1 ∧ (1 : Int) < 32768 by decide)
      fp := (show handleAddr 0 < 4294967296 by decide) }
  have hmem : ({ setupContext.toResponse with dwTotal := content.length } : Response).mem.length
      = memSize := List.length_replicate
  have hssi : (pageOf content).r.ssi
      = { SSIContext.zero with valid := 1, ssi := 1, fp := handleAddr 0 } := ssi_setSsi hmem hfits
  have hopen : (pageOf content).w.fs.OpenFile (handleAddr 0) content 0 := by
    have hslots : ((List.replicate maxFiles closedHandle).set 0
        ⟨some ⟨[], content.length, 0, 1⟩, 0⟩).length = maxFiles := by
      rw [List.length_set, List.length_replicate]
    refine ⟨⟨0, ⟨[], content.length, 0, 1⟩, filePtr_handleAddr (by decide), ?_, rfl, rfl, hlen, ?_⟩,
      Nat.zero_le _⟩
    · change 0 < ((List.replicate maxFiles closedHandle).set 0 _).length
      rw [hslots]
      decide
    intro pos n hin
    have hpos : (1 + pos) % 4294967296 = pos + 1 := by omega
    rw [FileSystem.fileBytes, if_neg (by decide : ¬ (1 : Nat) = 0)]
    change load (0 :: content) ((1 + pos) % 4294967296) n = _
    rw [hpos]
    rfl
  constructor
  · decide
  · rw [pageOf, Response.setSsi]
    dsimp only
    rw [length_store]
    exact hmem
  · rw [hssi]
    exact Int.one_pos
  · rw [hssi]
    rfl
  · rw [hssi]
    rfl
  · rw [hssi]
    rfl
  · rw [hssi]
    rfl
  · rfl
  · rfl
  · rfl
  · rw [hssi]
    exact hopen
  · rfl

/-- A tag with text behind it. -/
def taggedPage : Bytes :=
  ascii "<!--#DEV_MODEL-->" ++ List.replicate 70 46

theorem taggedPage_ended : Ended pageRequest (pageOf taggedPage) (fun _ => 128) 2 := by
  decide +kernel

/-- The condition holds of each of its calls: the tag begins, and it ends with the text. -/
theorem page_calls_safe_tagged (k : Nat)
    (hmade : Made pageRequest (pageOf taggedPage) (fun _ => 128) k) :
    CallRoom taggedPage (afterCalls pageRequest (pageOf taggedPage) (fun _ => 128) k) 128 := by
  match k, hmade with
  | 0, _ => decide +kernel
  | 1, _ => decide +kernel
  | k + 2, hmade => exact absurd taggedPage_ended (hmade 2 (Nat.le_add_left ..))

/-- The calls on it are safe, and the third one ends it. -/
theorem tagged_page_safe :
    Ended pageRequest (pageOf taggedPage) (fun _ => 128) 2 ∧
      ∀ k, Made pageRequest (pageOf taggedPage) (fun _ => 128) k →
        SafeCall pageRequest (afterCalls pageRequest (pageOf taggedPage) (fun _ => 128) k) 128 :=
  ⟨taggedPage_ended,
    page_calls_safe (fun _ => 128) (pageStart_pageOf (by decide)) page_calls_safe_tagged⟩

/-- The tag is replaced in the second call. -/
theorem tagged_page_expanded :
    ∃ n, Ended pageRequest (pageOf taggedPage) (fun _ => 128) n ∧
      (∀ j < n, ¬ Ended pageRequest (pageOf taggedPage) (fun _ => 128) j) ∧
      (callBytes pageRequest (pageOf taggedPage) (fun _ => 128) n
          = pageText (pageOf taggedPage).w.dev .copy taggedPage ↔
        ∀ j < n, TailPlain taggedPage (afterCalls pageRequest (pageOf taggedPage) (fun _ => 128) j)) :=
  page_calls_expand_iff (fun _ => 128) (pageStart_pageOf (by decide +kernel)) (by decide +kernel)
    (fun _ => Int.le_refl 128)

/-- A page that ends with a tag. -/
def tagPage : Bytes := ascii "<!--#DEV_MODEL-->"

/-- The first call reads all of it and stops behind the start marker; the second one finds
the file read and returns the name and the stop marker. -/
theorem tag_at_end_raw :
    Tagged pageMarkers 63 tagPage ∧ Ended pageRequest (pageOf tagPage) (fun _ => 128) 2 ∧
      (∀ j < 2, ¬ Ended pageRequest (pageOf tagPage) (fun _ => 128) j) ∧
      callBytes pageRequest (pageOf tagPage) (fun _ => 128) 2 = ascii "DEV_MODEL-->" ∧
      callBytes pageRequest (pageOf tagPage) (fun _ => 128) 2
        ≠ pageText (pageOf tagPage).w.dev .copy tagPage := by
  decide +kernel

/-- A tag whose name is one byte too long. -/
def longNamePage : Bytes := tagStart ++ List.replicate 64 97 ++ tagEnd

/-- The second call on it writes behind `_tagName`. -/
theorem long_name_overflows :
    ¬ ∀ k, Made pageRequest (pageOf longNamePage) (fun _ => 128) k →
      SafeCall pageRequest (afterCalls pageRequest (pageOf longNamePage) (fun _ => 128) k) 128 := by
  intro hsafe
  have hmade : Made pageRequest (pageOf longNamePage) (fun _ => 128) 1 := by
    intro j hj
    match j, hj with
    | 0, _ => decide
    | 1, _ => decide +kernel
    | j + 2, hj => omega
  have hfault : (webReadContent pageRequest
      (afterCalls pageRequest (pageOf longNamePage) (fun _ => 128) 1) 128).call.r.fault = true := by
    decide +kernel
  rw [(hsafe 1 hmade).fine] at hfault
  cases hfault

end Httpd
