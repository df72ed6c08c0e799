import LambdaIOT.Httpd.Logged

/-!
# What the `ReadContent` callbacks return

A reader changes the progress of the response and its application context, and leaves the
send buffer alone (`ReadFrame`): what it returns is stored by the caller. `ReadBound` is how
much that is.
-/

namespace Httpd

open CMem Lwip

/-! ## What a reader leaves alone -/

/-- `r'` is `r` after a reader: the progress, the result and the application context. -/
def ReadFrame (r r' : Response) : Prop :=
  ∃ result stage index total mem fault,
    r' = { r with
      result := result
      dwOperStage := stage
      dwOperIndex := index
      dwTotal := total
      mem := mem
      fault := r.fault || fault } ∧ mem.length = r.mem.length ∧
    mem.take maxSendBufSize = r.mem.take maxSendBufSize ∧ (result = r.result ∨ result = -500)

namespace ReadFrame

theorem unmarked (r : Response) (stage : Nat) (index total : Int) :
    ReadFrame r { r with dwOperStage := stage, dwOperIndex := index, dwTotal := total } :=
  ⟨r.result, stage, index, total, r.mem, false, by rw [Bool.or_false], rfl, rfl, .inl rfl⟩

theorem refl (r : Response) : ReadFrame r r :=
  unmarked r r.dwOperStage r.dwOperIndex r.dwTotal

theorem trans {r s t : Response} (h : ReadFrame r s) (h' : ReadFrame s t) : ReadFrame r t := by
  obtain ⟨_, _, _, _, _, fault, rfl, hlen, htake, hres⟩ := h
  obtain ⟨result, stage, index, total, mem, fault', rfl, hlen', htake', hres'⟩ := h'
  refine ⟨result, stage, index, total, mem, fault || fault', by rw [← Bool.or_assoc],
    hlen'.trans hlen, htake'.trans htake, ?_⟩
  rcases hres' with rfl | rfl
  · exact hres
  · exact .inr rfl

theorem crash (r : Response) : ReadFrame r r.crash :=
  ⟨r.result, r.dwOperStage, r.dwOperIndex, r.dwTotal, r.mem, true, by rw [Bool.or_true]; rfl,
    rfl, rfl, .inl rfl⟩

theorem setSsi (r : Response) (x : SSIContext) : ReadFrame r (r.setSsi x) :=
  ⟨r.result, r.dwOperStage, r.dwOperIndex, r.dwTotal, (r.setSsi x).mem, false,
    by rw [Bool.or_false]; rfl, length_store .., take_store (le_refl _), .inl rfl⟩

theorem setStage (r : Response) (stage : Nat) : ReadFrame r { r with dwOperStage := stage } :=
  unmarked r stage r.dwOperIndex r.dwTotal

theorem setIndex (r : Response) (index : Int) : ReadFrame r { r with dwOperIndex := index } :=
  unmarked r r.dwOperStage index r.dwTotal

theorem failed (r : Response) : ReadFrame r { r with result := -500 } :=
  ⟨-500, r.dwOperStage, r.dwOperIndex, r.dwTotal, r.mem, false, by rw [Bool.or_false], rfl, rfl,
    .inr rfl⟩

theorem setTotal (r : Response) (total : Int) : ReadFrame r { r with dwTotal := total } :=
  unmarked r r.dwOperStage r.dwOperIndex total

theorem result {r r' : Response} (h : ReadFrame r r') :
    r'.result = r.result ∨ r'.result = -500 := by
  obtain ⟨_, _, _, _, _, _, rfl, -, -, hres⟩ := h
  exact hres

theorem nextStage (r : Response) : ReadFrame r r.nextStage := setStage ..

theorem webAdvance (r : Response) (ssi cacheOffset : Int) :
    ReadFrame r (webAdvance r ssi cacheOffset) := by
  unfold Httpd.webAdvance
  split
  · exact setStage ..
  · exact nextStage r

theorem webReadEnd (c : Call) : ReadFrame c.r (webReadEnd c).call.r := by
  unfold Httpd.webReadEnd
  dsimp only
  split
  · split
    · exact (setStage ..).trans (setSsi ..)
    · exact crash _
  · exact setStage ..

theorem webReadPlain (c : Call) (maxSize : Int) :
    ReadFrame c.r (webReadPlain c maxSize).call.r := by
  unfold Httpd.webReadPlain
  dsimp only
  split
  · split
    · exact webAdvance ..
    · exact crash _
  · split
    · exact crash _
    · exact failed _
    · exact (setIndex ..).trans (webAdvance ..)

theorem webReadSsi (c : Call) (maxSize : Int) : ReadFrame c.r (webReadSsi c maxSize).call.r := by
  have hread : ∀ index x, ReadFrame c.r ({ c.r with dwOperIndex := index }.setSsi x) :=
    fun index x => (setIndex ..).trans (setSsi ..)
  unfold Httpd.webReadSsi
  dsimp only
  split
  · exact (hread _ _).trans (crash _)
  · split
    · exact (hread _ _).trans (failed _)
    · exact (hread _ _).trans (webAdvance ..)

theorem webReadContent (h : Request) (c : Call) (maxSize : Int) :
    ReadFrame c.r (webReadContent h c maxSize).call.r := by
  unfold Httpd.webReadContent
  split
  · exact refl _
  · split
    · exact webReadEnd c
    · split
      · exact webReadPlain c maxSize
      · exact webReadSsi c maxSize

theorem webCloseFile (c : Call) : ReadFrame c.r (webCloseFile c).r := by
  unfold Httpd.webCloseFile
  dsimp only
  split
  · split
    · exact setSsi ..
    · exact crash _
  · exact refl _

end ReadFrame

/-- One round of the listing: it ends, runs into a wild handle, or goes on. -/
theorem filesLoop_step {maxSize : Int} (fuel : Nat) (c : Call) (fp : Nat) {out : Bytes}
    (hroom : (out.length : Int) < maxSize - 200) :
    (∃ w r text, filesLoop maxSize (fuel + 1) c fp out = ⟨⟨w, r⟩, text.length, text ++ [0]⟩ ∧
        ReadFrame c.r r ∧ r.dwOperStage = stageEnd ∧
        (text = ascii "\x7b\"result\":0, \"data\":[]\x7d" ∨ text = out ++ ascii "]\x7d")) ∨
      filesLoop maxSize (fuel + 1) c fp out = ⟨{ c with r := c.r.crash }, 0, out⟩ ∨
      (∃ c' fp' out', filesLoop maxSize (fuel + 1) c fp out = filesLoop maxSize fuel c' fp' out' ∧
        ReadFrame c.r c'.r ∧
        (out' = out ∨ ∃ n, ∃ f ∈ fakeFiles, out' = out ++ filesItem n f)) := by
  have hnext := ReadFrame.nextStage c.r
  rw [filesLoop, if_pos hroom]
  dsimp only
  -- both kinds of round list an entry in the same way
  have hlist : ∀ (r : Response) (w : World) (fp' : Nat) (f : FileInfo), ReadFrame c.r r →
      f ∈ fakeFiles → ∃ c' fp'' out', (if filesListed r.responsePath f.name then
          filesLoop maxSize fuel { w := w, r := { r with dwTotal := r.dwTotal + 1 } } fp'
            (out ++ filesItem r.dwTotal f)
        else filesLoop maxSize fuel { w := w, r := r } fp' out) =
        filesLoop maxSize fuel c' fp'' out' ∧ ReadFrame c.r c'.r ∧
        (out' = out ∨ ∃ n, ∃ f ∈ fakeFiles, out' = out ++ filesItem n f) := by
    intro r w fp' f hr hf
    split
    · exact ⟨_, _, _, rfl, hr.trans (.setTotal ..), .inr ⟨_, f, hf, rfl⟩⟩
    · exact ⟨_, _, _, rfl, hr, .inl rfl⟩
  by_cases hfirst : c.r.dwOperStage = 0
  · simp only [hfirst, true_and, if_true]
    split
    · exact .inl ⟨_, _, _, rfl, (hnext.trans (.setStage ..)).trans (.setSsi ..), rfl, .inl rfl⟩
    · exact .inr (.inr (hlist _ _ _ _ (hnext.trans (.setSsi ..)) (by decide)))
  · simp only [hfirst, false_and, if_false]
    split
    · exact .inr (.inl rfl)
    · exact .inl ⟨_, _, _, rfl, (hnext.trans (.setStage ..)).trans (.setSsi ..), rfl, .inr rfl⟩
    · rename_i fs f hread
      have hmem : f ∈ fakeFiles := by
        unfold FileSystem.webReaddir at hread
        split at hread
        · cases hread
        · cases hread
        · simp only [Option.some.injEq, Prod.mk.injEq] at hread
          exact List.mem_of_getElem? hread.2
      exact .inr (.inr (hlist _ _ _ _ hnext hmem))

namespace ReadFrame

theorem filesLoop (maxSize : Int) (fuel : Nat) (c : Call) (fp : Nat) (out : Bytes) :
    ReadFrame c.r (filesLoop maxSize fuel c fp out).call.r := by
  induction fuel generalizing c fp out with
  | zero => exact refl _
  | succ fuel ih =>
    by_cases hroom : (out.length : Int) < maxSize - 200
    · rcases filesLoop_step fuel c fp hroom with
        ⟨w, r, text, heq, hr, -⟩ | heq | ⟨c', fp', out', heq, hr, -⟩
      · rw [heq]
        exact hr
      · rw [heq]
        exact crash _
      · rw [heq]
        exact hr.trans (ih c' fp' out')
    · rw [Httpd.filesLoop, if_neg hroom]
      exact refl _

/-- No reader touches more than the frame. -/
theorem readContent {cgi : Cgi} {f : Request → Call → Int → Content}
    (hf : cgi.readContent = some f) (h : Request) (c : Call) (maxSize : Int) :
    ReadFrame c.r (f h c maxSize).call.r := by
  cases cgi with
  | ssdp =>
    cases hf
    unfold ssdpSending
    split
    · split
      · exact refl _
      · exact setStage ..
    · exact refl _
  | auth =>
    cases hf
    exact webReadContent h c maxSize
  | form =>
    cases hf
    exact webReadContent h c maxSize
  | files =>
    cases hf
    unfold filesReadOneFileInfo
    split
    · split
      · exact webCloseFile c
      · exact filesLoop ..
    · exact refl _
  | upload => cases hf
  | webApp =>
    cases hf
    exact webReadContent h c maxSize

end ReadFrame

/-! ## How much it returns -/

/-- A reader returns at most `maxSize` bytes, and may write a terminator behind them. -/
structure ReadBound (maxSize : Int) (k : Content) : Prop where
  size : k.size ≤ k.out.length
  out : k.out = [] ∨ (k.out.length : Int) ≤ maxSize + 1
  most : k.size ≤ maxSize

namespace ReadBound

theorem nothing {maxSize : Int} {c : Call} {n : Int} (hn : n ≤ 0) (h : 0 ≤ maxSize) :
    ReadBound maxSize ⟨c, n, []⟩ := ⟨hn, .inl rfl, hn.trans h⟩

/-- The bytes of `out`, and nothing behind them. -/
theorem exactly {maxSize : Int} {c : Call} {out : Bytes} (h : (out.length : Int) ≤ maxSize) :
    ReadBound maxSize ⟨c, out.length, out⟩ :=
  ⟨le_refl _, .inr (h.trans (by omega)), h⟩

/-- The text `out` and its terminator. -/
theorem text {maxSize : Int} {c : Call} {out : Bytes} (h : (out.length : Int) ≤ maxSize) :
    ReadBound maxSize ⟨c, out.length, out ++ [0]⟩ := by
  have hlen : ((out ++ [0]).length : Int) = out.length + 1 := by simp
  refine ⟨?_, .inr ?_, h⟩
  · show (out.length : Int) ≤ ((out ++ [0]).length : Int)
    omega
  · show ((out ++ [0]).length : Int) ≤ maxSize + 1
    omega

end ReadBound

/-! ### `SSDP_Sending` -/

theorem length_decimalNat_byte (n : Nat) : (decimalNat (n % 256)).length ≤ 3 :=
  length_positional_le (by decide) (by decide) (by omega)

theorem length_dottedIP (ip : Nat) : (dottedIP ip).length ≤ 15 := by
  have hdot : (ascii ".").length = 1 := rfl
  have h1 := length_decimalNat_byte (ip / 16777216)
  have h2 := length_decimalNat_byte (ip / 65536)
  have h3 := length_decimalNat_byte (ip / 256)
  have h4 := length_decimalNat_byte ip
  simp only [dottedIP, List.length_append, hdot]
  omega

/-- Every stage of the description fits the 128 bytes kept free for it, with a terminator. -/
theorem length_ssdpPieces (w : World) : ∀ piece ∈ ssdpPieces w, piece.length ≤ 127 := by
  have hip := length_dottedIP w.dev.workConfig.dwIP
  have hhttp : (if w.listening443 then ascii "https://" else ascii "http://").length ≤ 8 := by
    split <;> decide
  have h1 : (ascii "<URLBase>").length = 9 := rfl
  have h2 : (ascii "</URLBase>\r\n").length = 12 := rfl
  have h3 : (ascii "<presentationURL>").length = 17 := rfl
  have h4 : (ascii "</presentationURL>\r\n").length = 20 := rfl
  intro piece hmem
  simp only [ssdpPieces, List.mem_cons, List.not_mem_nil, or_false] at hmem
  rcases hmem with rfl | rfl | rfl | rfl | rfl | rfl | rfl | rfl | rfl | rfl | rfl | rfl | rfl |
    rfl | rfl | rfl | rfl
  case inr.inr.inr.inl => simp only [List.length_append, h1, h2]; omega
  case inr.inr.inr.inr.inr.inr.inr.inl => simp only [List.length_append, h3, h4]; omega
  all_goals decide

theorem ssdpStages_length {maxSize : Int} {pieces : List Bytes} {stage : Nat} {out : Bytes}
    (hpieces : ∀ piece ∈ pieces, piece.length ≤ 127)
    (hout : out = [] ∧ 0 ≤ maxSize ∨ (out.length : Int) ≤ maxSize) :
    ((ssdpStages maxSize pieces stage out).2.length : Int) ≤ maxSize := by
  induction pieces generalizing stage out with
  | nil =>
    rcases hout with ⟨rfl, h⟩ | h
    · exact h
    · exact h
  | cons piece rest ih =>
    rw [ssdpStages]
    split
    · rcases hout with ⟨rfl, h⟩ | h
      · exact h
      · exact h
    · rename_i hroom
      refine ih (fun p hp => hpieces p (List.mem_cons_of_mem _ hp)) (.inr ?_)
      have := hpieces piece (List.mem_cons_self ..)
      rw [List.length_append]
      omega

theorem ssdpSending_bound (h : Request) (c : Call) {maxSize : Int} (hmax : 0 ≤ maxSize) :
    ReadBound maxSize (ssdpSending h c maxSize) := by
  unfold ssdpSending
  split
  · split
    · exact ⟨show (-1 : Int) ≤ 1 by decide, .inr (show (1 : Int) ≤ maxSize + 1 by omega),
        show -1 ≤ maxSize by omega⟩
    · refine .text (ssdpStages_length (fun p hp => ?_) (.inl ⟨rfl, hmax⟩))
      exact length_ssdpPieces c.w p (List.mem_of_mem_drop hp)
  · exact .nothing (le_refl _) hmax

/-! ### `Files_ReadOneFileInfo` -/

/-- Every entry fits the 200 bytes kept free for it, with the end of the listing. -/
theorem length_filesItem (count : Int) : ∀ f ∈ fakeFiles, (filesItem count f).length ≤ 198 := by
  have hfirst : ∀ f ∈ fakeFiles, (filesItem 0 f).length ≤ 198 := by decide
  have hother : ∀ f ∈ fakeFiles, (filesItem 1 f).length ≤ 198 := by decide
  intro f hf
  by_cases h0 : count = 0
  · rw [h0]
    exact hfirst f hf
  · have hsame : filesItem count f = filesItem 1 f := by
      unfold filesItem
      rw [if_neg h0, if_neg (by decide)]
    rw [hsame]
    exact hother f hf

theorem filesLoop_bound {maxSize : Int} (fuel : Nat) (c : Call) (fp : Nat) (out : Bytes)
    (hmax : 0 ≤ maxSize) (hout : (out.length : Int) ≤ max (maxSize - 2) 0) :
    ReadBound maxSize (filesLoop maxSize fuel c fp out) := by
  have hmark : (ascii "]\x7d").length = 2 := rfl
  have hnone : (ascii "\x7b\"result\":0, \"data\":[]\x7d").length = 23 := by decide
  induction fuel generalizing c fp out with
  | zero =>
    rw [filesLoop]
    by_cases hnil : out = []
    · rw [if_pos hnil, hnil]
      exact .nothing (by decide) hmax
    · rw [if_neg hnil]
      exact .exactly (by omega)
  | succ fuel ih =>
    by_cases hroom : (out.length : Int) < maxSize - 200
    · rcases filesLoop_step fuel c fp hroom with
        ⟨w, r, text, heq, -, -, htext⟩ | heq | ⟨c', fp', out', heq, -, hout'⟩
      · rw [heq]
        refine .text ?_
        rcases htext with rfl | rfl
        · rw [hnone]
          omega
        · rw [List.length_append, hmark]
          omega
      · rw [heq]
        exact ⟨Int.natCast_nonneg _, .inr (show (out.length : Int) ≤ _ by omega), hmax⟩
      · rw [heq]
        refine ih c' fp' out' ?_
        rcases hout' with rfl | ⟨n, f, hf, rfl⟩
        · exact hout
        · have := length_filesItem n f hf
          rw [List.length_append]
          omega
    · rw [filesLoop, if_neg hroom]
      by_cases hnil : out = []
      · rw [if_pos hnil, if_pos hnil]
        exact .nothing (by decide) hmax
      · rw [if_neg hnil, if_neg hnil]
        have : 0 < out.length := List.length_pos_iff.mpr hnil
        exact .text (by omega)

theorem filesReadOneFileInfo_bound (h : Request) (c : Call) {maxSize : Int} (hmax : 0 ≤ maxSize) :
    ReadBound maxSize (filesReadOneFileInfo h c maxSize) := by
  unfold filesReadOneFileInfo
  split
  · split
    · exact .nothing (by decide) hmax
    · exact filesLoop_bound _ c _ [] hmax (le_max_right ..)
  · exact .nothing (by decide) hmax

/-! ### `WEB_ReadContent` -/

theorem webReadPlain_bound (c : Call) {maxSize : Int} (hmax : 0 ≤ maxSize) :
    ReadBound maxSize (webReadPlain c maxSize) := by
  unfold webReadPlain
  dsimp only
  split
  · split
    · exact .nothing (le_refl _) hmax
    · exact .nothing (le_refl _) hmax
  · split
    · exact .nothing (le_refl _) hmax
    · exact .nothing (le_refl _) hmax
    · rename_i hread
      exact .exactly ((FileSystem.webFread_length hread).trans (min_le_right ..))

/-- The output of the scan fits, and the scan stops when it is full. -/
structure ScanRoom (maxSize : Int) (s : SsiScan) : Prop where
  out : (s.out.length : Int) ≤ maxSize
  more : s.ready = false → (s.out.length : Int) < maxSize

theorem scanRoom_emit {maxSize : Int} {s : SsiScan} (c : UInt8) (h : ScanRoom maxSize s)
    (hrun : s.ready = false) : ScanRoom maxSize (s.emit c maxSize) := by
  have hmore := h.more hrun
  have hlen : ((s.out ++ [c]).length : Int) = s.out.length + 1 := by simp
  constructor
  · show ((s.out ++ [c]).length : Int) ≤ maxSize
    omega
  · intro hready
    have hready' : ¬ maxSize ≤ (s.out.length + 1 : Int) := of_decide_eq_false hready
    show ((s.out ++ [c]).length : Int) < maxSize
    omega

theorem scanRoom_replace {maxSize : Int} {s : SsiScan} (d : Device) (h : ScanRoom maxSize s)
    (hrun : s.ready = false) (hfine : (s.replace d maxSize).bad = false) :
    ScanRoom maxSize (s.replace d maxSize) := by
  have hmore := h.more hrun
  have hlen : 0 ≤ replaceTagLen d s.x.tagName (maxSize - s.out.length - 50) := by
    have : (s.bad || decide (replaceTagLen d s.x.tagName (maxSize - s.out.length - 50) < 0)) =
        false := hfine
    simp only [Bool.or_eq_false_iff, decide_eq_false_iff_not, not_lt] at this
    exact this.2
  have hle : ((replaceTag d s.x.tagName (maxSize - s.out.length - 50)).length : Int) ≤
      max (maxSize - s.out.length - 50) 0 := by
    by_cases hpos : 0 ≤ maxSize - s.out.length - 50
    · rw [length_replaceTag hpos]
      exact (replaceTagLen_le hpos).trans (le_max_left ..)
    · -- without room only the empty value is copied
      have hzero : replaceTagLen d s.x.tagName (maxSize - s.out.length - 50) ≤ 0 := by
        unfold replaceTagLen
        dsimp only
        split
        · exact le_refl _
        · rw [if_pos (by omega)]
          omega
      rw [replaceTag, List.length_take]
      omega
  have hout : (((s.replace d maxSize).out).length : Int) = s.out.length +
      (replaceTag d s.x.tagName (maxSize - s.out.length - 50)).length := by
    show ((s.out ++ replaceTag d s.x.tagName (maxSize - s.out.length - 50)).length : Int) = _
    rw [List.length_append]
    omega
  exact ⟨by omega, fun _ => by omega⟩

/-- A round of the scan keeps the room, unless it leaves its objects. -/
theorem scanRoom_round {maxSize : Int} {s s' : SsiScan} {d : Device} (h : ScanRoom maxSize s)
    (hrun : s.ready = false) (heq : s.round d maxSize = some s') (hfine : s'.bad = false) :
    ScanRoom maxSize s' := by
  have hcollect : ∀ c, ScanRoom maxSize (s.collect c) := fun c => ⟨h.out, fun _ => h.more hrun⟩
  unfold SsiScan.round at heq
  dsimp only at heq
  split at heq
  · split at heq
    · cases heq
      exact scanRoom_emit _ h hrun
    · split at heq
      · split at heq
        · cases heq
          exact ⟨h.out, fun hc => nomatch hc⟩
        · cases heq
          exact scanRoom_emit _ h hrun
      · cases heq
  · split at heq
    · split at heq
      · cases heq
        exact hcollect _
      · split at heq
        · split at heq
          · cases heq
            exact scanRoom_replace d h hrun hfine
          · cases heq
            exact hcollect _
        · cases heq
    · cases heq
      cases hfine

/-- A scan that has left its objects does not come back. -/
theorem scanLoop_bad {maxSize : Int} {d : Device} (fuel : Nat) {s : SsiScan} (h : s.bad = true) :
    (SsiScan.loop d maxSize fuel s).bad = true := by
  cases fuel with
  | zero => exact h
  | succ fuel =>
    rw [SsiScan.loop, if_neg fun hc => by rw [h] at hc; cases hc.2.2]
    exact h

theorem scanRoom_loop {m : Int} {d : Device} (fuel : Nat) {s : SsiScan}
    (h : ScanRoom m s) (hfine : (SsiScan.loop d m fuel s).bad = false) :
    ScanRoom m (SsiScan.loop d m fuel s) := by
  induction fuel generalizing s with
  | zero => exact h
  | succ fuel ih =>
    rw [SsiScan.loop] at hfine ⊢
    split at hfine
    · rename_i hgo
      rw [if_pos hgo]
      dsimp only at hfine ⊢
      have hstart : ∀ t : SsiScan, t = (if s.x.ssiState = 0 then
          { s with x := { s.x with ssiState := 1 } } else s) → ScanRoom m t ∧ t.ready = false := by
        rintro t rfl
        split
        · exact ⟨⟨h.out, h.more⟩, hgo.2.1⟩
        · exact ⟨h, hgo.2.1⟩
      generalize (if s.x.ssiState = 0 then { s with x := { s.x with ssiState := 1 } } else s) = t
        at hstart hfine ⊢
      obtain ⟨ht, hrun⟩ := hstart t rfl
      cases hround : t.round d m with
      | none =>
        rw [hround] at hfine
        exact ht
      | some t' =>
        rw [hround] at hfine
        dsimp only at hfine ⊢
        refine ih (scanRoom_round ht hrun hround ?_) hfine
        by_contra hbad
        rw [scanLoop_bad fuel (by simpa using hbad)] at hfine
        cases hfine
    · rename_i hstop
      rw [if_neg hstop]
      exact h

/-- A loop that has left its objects stops. -/
theorem ssiLoop_bad {maxSize total : Int} {d : Device} (fuel : Nat) {s : SsiRead}
    (h : s.scan.bad = true) : (ssiLoop d total maxSize fuel s).scan.bad = true := by
  cases fuel with
  | zero =>
    rw [ssiLoop]
    split
    · rfl
    · exact h
  | succ fuel =>
    rw [ssiLoop, if_neg fun hc => by rw [h] at hc; cases hc.2.2.1]
    exact h

theorem scanRoom_ssiRound {maxSize total : Int} {d : Device} {s : SsiRead}
    (h : ScanRoom maxSize s.scan) (hfine : (ssiRound d total maxSize s).scan.bad = false) :
    ScanRoom maxSize (ssiRound d total maxSize s).scan := by
  unfold ssiRound at hfine ⊢
  dsimp only at hfine ⊢
  split at hfine
  · cases hfine
  · rename_i hfp
    rw [if_neg hfp]
    cases hread : s.fs.webFread s.scan.x.fp (min (total - s.dwOperIndex)
        (64 - s.scan.x.cacheOffset)) with
    | none =>
      rw [hread] at hfine
      cases hfine
    | some p =>
      obtain ⟨fs, bs⟩ := p
      rw [hread] at hfine
      cases bs with
      | none => exact h
      | some bs =>
        have hloop := scanRoom_loop (m := maxSize) (d := d) _
          (s := { s.scan with x := { s.scan.x with
            cache := store s.scan.x.cache s.scan.x.cacheOffset.toNat bs
            cacheOffset := s.scan.x.cacheOffset + bs.length } }) ⟨h.out, h.more⟩ hfine
        exact ⟨hloop.out, hloop.more⟩

theorem scanRoom_ssiLoop {m t : Int} {d : Device} (fuel : Nat) {s : SsiRead}
    (h : ScanRoom m s.scan) (hfine : (ssiLoop d t m fuel s).scan.bad = false) :
    ScanRoom m (ssiLoop d t m fuel s).scan := by
  induction fuel generalizing s with
  | zero =>
    rw [ssiLoop] at hfine ⊢
    split at hfine
    · cases hfine
    · rename_i hstop
      rw [if_neg hstop]
      exact h
  | succ fuel ih =>
    rw [ssiLoop] at hfine ⊢
    split at hfine
    · rename_i hgo
      rw [if_pos hgo]
      refine ih (scanRoom_ssiRound h ?_) hfine
      by_contra hbad
      rw [ssiLoop_bad fuel (by simpa using hbad)] at hfine
      cases hfine
    · rename_i hstop
      rw [if_neg hstop]
      exact h

theorem webReadSsi_bound (c : Call) {maxSize : Int} (hmax : 1 ≤ maxSize) :
    ReadBound maxSize (webReadSsi c maxSize) := by
  have hroom := scanRoom_ssiLoop (m := maxSize) (t := c.r.dwTotal) (d := c.w.dev)
    (2 * (c.r.dwTotal - c.r.dwOperIndex).toNat + 2)
    (s := ⟨c.w.fs, c.r.dwOperIndex, ⟨c.r.ssi, [], 0, false, false⟩, false⟩)
    ⟨show (0 : Int) ≤ maxSize by omega, fun _ => show (0 : Int) < maxSize by omega⟩
  unfold webReadSsi
  dsimp only
  generalize ssiLoop _ _ _ _ _ = s at hroom ⊢
  split
  · exact .nothing (le_refl _) (by omega)
  · rename_i hfine
    have hout := (hroom (by simpa using hfine)).out
    split
    · exact ⟨Int.natCast_nonneg _, .inr (show (s.scan.out.length : Int) ≤ _ by omega),
        show (0 : Int) ≤ maxSize by omega⟩
    · exact .exactly hout

/-- The rest of the cache is the one output that no size bounds. -/
theorem webReadEnd_bound (c : Call) {maxSize : Int} (hmax : 0 ≤ maxSize)
    (hcache : 0 < c.r.ssi.ssi → c.r.ssi.cacheOffset ≤ maxSize) :
    ReadBound maxSize (webReadEnd c) := by
  unfold webReadEnd
  dsimp only
  split
  · rename_i hssi
    split
    · rename_i hlen
      have hoff := hcache hssi.1
      refine ⟨?_, .inr ?_, hoff⟩
      · show c.r.ssi.cacheOffset ≤ ((load c.r.appContext 152 c.r.ssi.cacheOffset.toNat).length : Int)
        omega
      · show ((load c.r.appContext 152 c.r.ssi.cacheOffset.toNat).length : Int) ≤ maxSize + 1
        omega
    · exact .nothing (le_refl _) hmax
  · exact .nothing (by decide) hmax

/-- What a page with tags needs of the room: a byte while it is scanned, and the cache when
the file is read. -/
def TagRoom (r : Response) (maxSize : Int) : Prop :=
  if r.dwTotal - r.dwOperIndex = 0 then 0 < r.ssi.ssi → r.ssi.cacheOffset ≤ maxSize
  else r.ssi.ssi ≠ 0 → 1 ≤ maxSize

instance (r : Response) (maxSize : Int) : Decidable (TagRoom r maxSize) := by
  unfold TagRoom
  infer_instance

theorem webReadContent_bound (h : Request) (c : Call) {maxSize : Int} (hmax : 0 ≤ maxSize)
    (htag : TagRoom c.r maxSize) : ReadBound maxSize (webReadContent h c maxSize) := by
  unfold TagRoom at htag
  unfold webReadContent
  split
  · exact .nothing (by decide) hmax
  · split
    · rename_i hend
      rw [if_pos hend] at htag
      exact webReadEnd_bound c hmax htag
    · rename_i hmore
      rw [if_neg hmore] at htag
      split
      · exact webReadPlain_bound c hmax
      · rename_i hssi
        exact webReadSsi_bound c (htag hssi)

/-- The page handlers, whose reader is `WEB_ReadContent`. -/
def Cgi.isPage : Cgi → Bool
  | .auth | .form | .webApp => true
  | _ => false

/-- Every reader keeps to the size it is given. -/
theorem readContent_bound {cgi : Cgi} {f : Request → Call → Int → Content}
    (hf : cgi.readContent = some f) (h : Request) (c : Call) {maxSize : Int} (hmax : 0 ≤ maxSize)
    (htag : cgi.isPage → TagRoom c.r maxSize) : ReadBound maxSize (f h c maxSize) := by
  cases cgi with
  | ssdp =>
    cases hf
    exact ssdpSending_bound h c hmax
  | auth =>
    cases hf
    exact webReadContent_bound h c hmax (htag rfl)
  | form =>
    cases hf
    exact webReadContent_bound h c hmax (htag rfl)
  | files =>
    cases hf
    exact filesReadOneFileInfo_bound h c hmax
  | upload => cases hf
  | webApp =>
    cases hf
    exact webReadContent_bound h c hmax (htag rfl)

/-! ### What is counted is written -/

/-- The reader wrote the bytes it says it returns. -/
def Counted (k : Content) : Prop := k.size ≤ k.out.length

theorem counted_nothing {c : Call} {n : Int} (h : n ≤ 0) : Counted ⟨c, n, []⟩ := h

theorem counted_exactly (c : Call) (out : Bytes) : Counted ⟨c, out.length, out⟩ := le_refl _

theorem counted_text (c : Call) (out : Bytes) : Counted ⟨c, out.length, out ++ [0]⟩ := by
  show (out.length : Int) ≤ ((out ++ [0]).length : Int)
  rw [List.length_append]
  omega

theorem ssdpSending_counted (h : Request) (c : Call) (maxSize : Int) :
    Counted (ssdpSending h c maxSize) := by
  unfold ssdpSending
  split
  · split
    · exact show (-1 : Int) ≤ 1 by decide
    · exact counted_text ..
  · exact counted_nothing (le_refl _)

theorem filesLoop_counted (maxSize : Int) (fuel : Nat) (c : Call) (fp : Nat) (out : Bytes) :
    Counted (filesLoop maxSize fuel c fp out) := by
  induction fuel generalizing c fp out with
  | zero =>
    rw [filesLoop]
    by_cases hnil : out = []
    · rw [if_pos hnil, hnil]
      exact counted_nothing (by decide)
    · rw [if_neg hnil]
      exact counted_exactly ..
  | succ fuel ih =>
    by_cases hroom : (out.length : Int) < maxSize - 200
    · rcases filesLoop_step fuel c fp hroom with
        ⟨w, r, text, heq, -⟩ | heq | ⟨c', fp', out', heq, -⟩
      · rw [heq]
        exact counted_text ..
      · rw [heq]
        exact Int.natCast_nonneg _
      · rw [heq]
        exact ih c' fp' out'
    · rw [filesLoop, if_neg hroom]
      by_cases hnil : out = []
      · rw [if_pos hnil, if_pos hnil]
        exact counted_nothing (by decide)
      · rw [if_neg hnil, if_neg hnil]
        exact counted_text ..

theorem webReadContent_counted (h : Request) (c : Call) (maxSize : Int) :
    Counted (webReadContent h c maxSize) := by
  unfold webReadContent
  split
  · exact counted_nothing (by decide)
  · split
    · unfold webReadEnd
      dsimp only
      split
      · split
        · rename_i hlen
          show c.r.ssi.cacheOffset ≤ ((load c.r.appContext 152 c.r.ssi.cacheOffset.toNat).length : Int)
          omega
        · exact counted_nothing (le_refl _)
      · exact counted_nothing (by decide)
    · split
      · unfold webReadPlain
        dsimp only
        split
        · split
          · exact counted_nothing (le_refl _)
          · exact counted_nothing (le_refl _)
        · split
          · exact counted_nothing (le_refl _)
          · exact counted_nothing (le_refl _)
          · exact counted_exactly ..
      · unfold webReadSsi
        dsimp only
        split
        · exact counted_nothing (le_refl _)
        · split
          · exact Int.natCast_nonneg _
          · exact counted_exactly ..

theorem readContent_counted {cgi : Cgi} {f : Request → Call → Int → Content}
    (hf : cgi.readContent = some f) (h : Request) (c : Call) (maxSize : Int) :
    Counted (f h c maxSize) := by
  cases cgi with
  | ssdp =>
    cases hf
    exact ssdpSending_counted h c maxSize
  | auth =>
    cases hf
    exact webReadContent_counted h c maxSize
  | form =>
    cases hf
    exact webReadContent_counted h c maxSize
  | files =>
    cases hf
    show Counted (filesReadOneFileInfo h c maxSize)
    unfold filesReadOneFileInfo
    split
    · split
      · exact counted_nothing (by decide)
      · exact filesLoop_counted ..
    · exact counted_nothing (by decide)
  | upload => cases hf
  | webApp =>
    cases hf
    exact webReadContent_counted h c maxSize

end Httpd
