import LambdaIOT.Httpd.Sending

/-!
# The capacity of the response body

`CGI_LoadContentToSend` puts a block behind the bytes that are left of the last one: a gap
for the chunk prefix, the content, and behind the last chunk the seven bytes that end the
body. The handler is asked for what is left of the buffer, so the block fits as long as the
leftover is small enough for this to be a size, and the last chunk leaves room for its end;
neither is checked.
-/

namespace Httpd

open CMem Lwip

/-! ## Writes inside the buffer -/

/-- `r'` is `r` after writes inside the send buffer. -/
structure InBlock (r r' : Response) : Prop where
  peak : r'.peak ≤ max r.peak maxSendBufSize
  fault : r'.fault = r.fault
  length : r'.mem.length = r.mem.length

namespace InBlock

theorem refl (r : Response) : InBlock r r := ⟨le_max_left .., rfl, rfl⟩

theorem trans {r s t : Response} (h : InBlock r s) (h' : InBlock s t) : InBlock r t where
  peak := h'.peak.trans (max_le h.peak (le_max_right ..))
  fault := h'.fault.trans h.fault
  length := h'.length.trans h.length

theorem put {r : Response} {off : Int} {bs : Bytes}
    (h : bs = [] ∨ (0 ≤ off ∧ off + bs.length ≤ maxSendBufSize)) :
    InBlock r (r.putSend off bs) := by
  have hfits : Response.sendFits off bs := by
    rcases h with h | ⟨h0, h1⟩
    · exact .inl h
    · refine .inr ⟨h0, h1.trans ?_⟩
      decide
  refine ⟨?_, ?_, ?_⟩
  · show (if bs = [] then r.peak else max r.peak (off + bs.length).toNat) ≤ _
    rcases h with h | ⟨h0, h1⟩
    · rw [if_pos h]
      exact le_max_left ..
    · split
      · exact le_max_left ..
      · omega
  · show (r.fault || !decide (Response.sendFits off bs)) = r.fault
    simp [hfits]
  · show (if Response.sendFits off bs then store r.mem off.toNat bs else r.mem).length = _
    rw [if_pos hfits, length_store]

end InBlock

/-- The prefix of a chunk fits the ten bytes in front of the content. -/
theorem length_chunkPrefix (first : Bool) {n : Nat} (hn : n < 256) :
    (chunkPrefix first n).length ≤ 6 := by
  have hcrlf : crlf.length = 2 := rfl
  have hhex : (hexUpper n).length ≤ 2 :=
    length_positional_le (by decide) (by decide) (by simpa using hn)
  have hfront : (if first then [] else crlf).length ≤ 2 := by
    split
    · exact Nat.zero_le _
    · exact hcrlf.le
  simp only [chunkPrefix, List.length_append, hcrlf]
  omega

/-! ## Blocks -/

/-- A block without chunks. -/
theorem storePlain_fits {r : Response} {k : Content} (h0 : 0 ≤ r.bytesLeft)
    (h1 : r.bytesLeft ≤ 254) (hk : ReadBound (254 - r.bytesLeft) k) :
    InBlock r (storePlain r r.bytesLeft k) ∧ 0 ≤ (storePlain r r.bytesLeft k).bytesLeft ∧
      (storePlain r r.bytesLeft k).bytesLeft ≤ maxSendBufSize := by
  have hbuf : (maxSendBufSize : Int) = 256 := rfl
  have hsize := hk.most
  have hput : InBlock r (r.putSend r.bytesLeft k.out) := by
    refine .put ?_
    rcases hk.out with h | h
    · exact .inl h
    · exact .inr ⟨h0, by omega⟩
  unfold storePlain
  dsimp only
  split
  · exact ⟨⟨hput.peak, hput.fault, hput.length⟩, h0, show r.bytesLeft ≤ _ by omega⟩
  · exact ⟨⟨hput.peak, hput.fault, hput.length⟩, show 0 ≤ r.bytesLeft + k.size by omega,
      show r.bytesLeft + k.size ≤ _ by omega⟩

/-- A chunk, with its prefix in front of it and the end of the body behind the last one. -/
theorem wrapChunk_fits {r : Response} {n : Nat} (first : Bool) (h0 : 0 ≤ r.bytesLeft)
    (hmem : r.mem.length = memSize) (hn : r.bytesLeft + n ≤ 244)
    (hend : r.dwOperStage = stageEnd → r.bytesLeft + n ≤ 239) :
    InBlock r (wrapChunk r r.bytesLeft first n) ∧ 0 ≤ (wrapChunk r r.bytesLeft first n).bytesLeft ∧
      (wrapChunk r r.bytesLeft first n).bytesLeft ≤ maxSendBufSize := by
  have hbuf : (maxSendBufSize : Int) = 256 := rfl
  have hpre := length_chunkPrefix first (n := n) (by omega)
  have hending : r.bytesLeft + n + 10 + (chunkEnding r).length ≤ 256 := by
    unfold chunkEnding
    split
    · rename_i hlast
      have htail : chunkTail.length = 7 := rfl
      have := hend hlast
      omega
    · rw [List.length_nil]
      omega
  unfold wrapChunk
  dsimp only
  generalize chunkPrefix first n = pre at hpre ⊢
  generalize chunkEnding r = ending at hending ⊢
  have h1 : InBlock r (r.putSend (r.bytesLeft + 10 - pre.length) pre) :=
    .put (.inr ⟨by omega, by omega⟩)
  generalize hr1 : r.putSend (r.bytesLeft + 10 - pre.length) pre = r1 at h1 ⊢
  have h2 : InBlock r1 (r1.putSend (r.bytesLeft + 10 - pre.length + (n + pre.length : Nat)) ending) :=
    .put (.inr ⟨by omega, by omega⟩)
  generalize hr2 : r1.putSend (r.bytesLeft + 10 - pre.length + (n + pre.length : Nat)) ending = r2
    at h2 ⊢
  have hload : (load r2.mem (r.bytesLeft + 10 - pre.length).toNat
      (n + pre.length + ending.length)).length = n + pre.length + ending.length := by
    have hlen : r2.mem.length = 512 := (h1.trans h2).length.trans hmem
    exact length_load (by omega)
  have h3 : InBlock r2 (r2.putSend r.bytesLeft (load r2.mem
      (r.bytesLeft + 10 - pre.length).toNat (n + pre.length + ending.length))) :=
    .put (.inr ⟨h0, by rw [hload]; omega⟩)
  have hleft : r2.bytesLeft = r.bytesLeft := by
    rw [← hr2, ← hr1]
    rfl
  have h := (h1.trans h2).trans h3
  refine ⟨⟨h.peak, h.fault, h.length⟩, ?_, ?_⟩
  · show 0 ≤ r2.bytesLeft + ((n + pre.length + ending.length : Nat) : Int)
    omega
  · show r2.bytesLeft + ((n + pre.length + ending.length : Nat) : Int) ≤ maxSendBufSize
    omega

theorem storeChunk_fits {r : Response} {k : Content} (first : Bool) (h0 : 0 ≤ r.bytesLeft)
    (h1 : r.bytesLeft ≤ 244) (hmem : r.mem.length = memSize)
    (hk : ReadBound (244 - r.bytesLeft) k)
    (hend : r.dwOperStage = stageEnd → 0 < k.size → k.size ≤ 239 - r.bytesLeft) :
    InBlock r (storeChunk r r.bytesLeft first k) ∧
      0 ≤ (storeChunk r r.bytesLeft first k).bytesLeft ∧
      (storeChunk r r.bytesLeft first k).bytesLeft ≤ maxSendBufSize := by
  have hbuf : (maxSendBufSize : Int) = 256 := rfl
  have hsize := hk.most
  have hput : InBlock r (r.putSend (r.bytesLeft + 10) k.out) := by
    refine .put ?_
    rcases hk.out with h | h
    · exact .inl h
    · exact .inr ⟨by omega, by omega⟩
  unfold storeChunk
  dsimp only
  split
  · rename_i hpos
    have hwrap := wrapChunk_fits (r := r.putSend (r.bytesLeft + 10) k.out) (n := k.size.toNat) first
      h0 (hput.length.trans hmem) (show r.bytesLeft + (k.size.toNat : Int) ≤ 244 by omega)
      fun hlast => by
        have := hend hlast hpos
        show r.bytesLeft + (k.size.toNat : Int) ≤ 239
        omega
    exact ⟨hput.trans hwrap.1, hwrap.2⟩
  · exact ⟨hput, h0, show r.bytesLeft ≤ _ by omega⟩

/-! ## The room a block needs -/

/-- The leftover leaves a size to ask for, a last chunk leaves room for the end of the body,
a page with tags has a byte to go on, and the reader stays inside its own objects: the file
it reads, the name of a tag, the room for the value of a tag. -/
def ReadRoom (f : Request → Call → Int → Content) (w : World) (h : Request) (r : Response) :
    Prop :=
  (if r.options.chunkEnabled then
    r.bytesLeft ≤ 244 ∧ ((readOf f w h r).call.r.dwOperStage = stageEnd →
      0 < (readOf f w h r).size → (readOf f w h r).size ≤ 239 - r.bytesLeft)
  else r.bytesLeft ≤ 254) ∧
  (h.handler.any Cgi.isPage → TagRoom r (freeSize h r)) ∧
  (readOf f w h r).call.r.fault = r.fault

instance (f : Request → Call → Int → Content) (w : World) (h : Request) (r : Response) :
    Decidable (ReadRoom f w h r) := by
  unfold ReadRoom
  infer_instance

/-- The condition on the context before the call. -/
def LoadRoom : Act → Prop
  | .load w h before _ _ =>
    match readerOf h with
    | some f => if before.dwOperStage < stageEnd then ReadRoom f w h before
      else before.bytesLeft ≤ maxSendBufSize
    | none => before.bytesLeft ≤ maxSendBufSize
  | _ => True

instance : DecidablePred LoadRoom := fun a => by
  apply @Act.casesOn (fun a => Decidable (LoadRoom a)) a <;> intros
  case load w h before after d =>
    unfold LoadRoom
    dsimp only
    generalize readerOf h = reader
    revert reader
    apply @Option.rec <;> intros <;> infer_instance
  all_goals exact .isTrue trivial

/-- What a call of `CGI_LoadContentToSend` promises: a handler that reads is given a size, and
every write is inside the send buffer. -/
def LoadFits : Act → Prop
  | .load _ h before after _ =>
    ((readerOf h).isSome ∧ before.dwOperStage < stageEnd →
      0 ≤ freeSize h before ∧ after.fault = before.fault) ∧
    after.peak ≤ maxSendBufSize ∧ 0 ≤ after.bytesLeft ∧ after.bytesLeft ≤ maxSendBufSize
  | _ => True

instance : DecidablePred LoadFits := fun a => by
  apply @Act.casesOn (fun a => Decidable (LoadFits a)) a <;> intros <;> unfold LoadFits <;> infer_instance

/-- A call that reads. -/
theorem afterRead_fits {f : Request → Call → Int → Content} {w : World} {h : Request}
    {r : Response} (hf : readerOf h = some f) (hblock : h.sendMaxBlock = maxSendBufSize)
    (h0 : 0 ≤ r.bytesLeft) (hpeak : r.peak = 0) (hmem : r.mem.length = memSize)
    (hroom : ReadRoom f w h r) :
    0 ≤ freeSize h r ∧ (afterRead f w h r).fault = r.fault ∧
      (afterRead f w h r).peak ≤ maxSendBufSize ∧ 0 ≤ (afterRead f w h r).bytesLeft ∧
      (afterRead f w h r).bytesLeft ≤ maxSendBufSize := by
  obtain ⟨hleft, htag, hfault⟩ := hroom
  have hbuf : (maxSendBufSize : Int) = 256 := rfl
  have hfree : freeSize h r = if r.options.chunkEnabled then 244 - r.bytesLeft
      else 254 - r.bytesLeft := by
    rw [freeSize, hblock, hbuf]
    split <;> omega
  have hmax : 0 ≤ freeSize h r := by
    rw [hfree]
    split at hleft
    · rename_i hchunk
      rw [if_pos hchunk]
      omega
    · rename_i hchunk
      rw [if_neg hchunk]
      omega
  obtain ⟨cgi, hcgi, hread⟩ := Option.bind_eq_some_iff.mp hf
  have hbound : ReadBound (freeSize h r) (readOf f w h r) :=
    readContent_bound hread h ⟨w, r⟩ hmax fun hp => htag (by rw [hcgi]; exact hp)
  obtain ⟨_, _, _, _, _, _, hframe, hlen, -⟩ := readerOf_frame hf w r
  have hr : (readOf f w h r).call.r.bytesLeft = r.bytesLeft ∧
      (readOf f w h r).call.r.peak = 0 ∧ (readOf f w h r).call.r.mem.length = memSize := by
    refine ⟨by rw [hframe], ?_, ?_⟩
    · rw [hframe]
      exact hpeak
    · rw [hframe]
      exact hlen.trans hmem
  refine ⟨hmax, ?_⟩
  unfold afterRead
  dsimp only
  rw [hfree] at hbound
  rw [← hfault]
  generalize readOf f w h r = k at hbound hleft hr ⊢
  obtain ⟨hb, hp, hm⟩ := hr
  rw [← hb] at h0 hleft hbound ⊢
  split at hleft
  · rename_i hchunk
    rw [if_pos hchunk] at hbound ⊢
    have hfit := storeChunk_fits (decide (r.dwOperStage = 0 ∧ r.dwOperIndex = 0)) h0 hleft.1 hm
      hbound hleft.2
    refine ⟨hfit.1.fault, ?_, hfit.2⟩
    have := hfit.1.peak
    rw [hp] at this
    omega
  · rename_i hchunk
    rw [if_neg hchunk] at hbound ⊢
    have hfit := storePlain_fits h0 hleft hbound
    refine ⟨hfit.1.fault, ?_, hfit.2⟩
    have := hfit.1.peak
    rw [hp] at this
    omega

theorem LoadRoom.idle {w : World} {h : Request} {before after : Response} {d : Int}
    (hroom : LoadRoom (.load w h before after d))
    (hnone : readerOf h = none ∨ stageEnd ≤ before.dwOperStage) :
    before.bytesLeft ≤ maxSendBufSize := by
  unfold LoadRoom at hroom
  dsimp only at hroom
  rcases hnone with hnone | hend
  · rw [hnone] at hroom
    exact hroom
  · cases hf : readerOf h with
    | none =>
      rw [hf] at hroom
      exact hroom
    | some f =>
      rw [hf] at hroom
      dsimp only at hroom
      rw [if_neg (Nat.not_lt.mpr hend)] at hroom
      exact hroom

theorem LoadRoom.read {w : World} {h : Request} {before after : Response} {d : Int}
    {f : Request → Call → Int → Content} (hroom : LoadRoom (.load w h before after d))
    (hf : readerOf h = some f) (hstage : before.dwOperStage < stageEnd) :
    ReadRoom f w h before := by
  unfold LoadRoom at hroom
  dsimp only at hroom
  rw [hf] at hroom
  dsimp only at hroom
  rw [if_pos hstage] at hroom
  exact hroom

/-- In every run, a call of `CGI_LoadContentToSend` whose context has the room stays inside
the send buffer. -/
theorem response_body_capacity {sv : Server} (h : sv.Reachable) {c : RequestContext}
    (hc : c ∈ sv.slots) : ∀ a ∈ c.log, LoadRoom a → LoadFits a := by
  intro a ha hroom
  cases a with
  | load w req before after d =>
    obtain ⟨s, hs, hlogged⟩ := (h.slot hc).logged ha rfl
    obtain ⟨-, hsent, -, rfl, rfl, rfl, caller, t, hload, rfl⟩ := hlogged
    have hinv := hs.sendInv
    have hcases := loadContent_cases (s.setResponse { s.c.toResponse with peak := 0 }) caller
    rw [hload] at hcases
    unfold LoadFits
    rcases hcases with ⟨hframe, -, hnone⟩ | ⟨f, hf, hstage, hafter, -⟩
    · refine ⟨fun hreads => ?_, ?_, ?_, ?_⟩
      · rcases hnone with hnone | hend
        · rw [show readerOf s.c.toRequest = none from hnone] at hreads
          cases hreads.1
        · exact absurd hreads.2 (Nat.not_lt.mpr hend)
      · obtain ⟨_, _, _, _, _, _, heq, -⟩ := hframe
        rw [show t.c.toResponse = _ from heq]
        exact Nat.zero_le _
      · rw [show t.c.toResponse.bytesLeft = _ from hframe.bytesLeft]
        exact hinv.left hsent
      · rw [show t.c.toResponse.bytesLeft = _ from hframe.bytesLeft]
        exact hroom.idle hnone
    · have hfit := afterRead_fits (r := { s.c.toResponse with peak := 0 }) hf (hinv.block hsent)
        (hinv.left hsent) rfl hs.shape.mem (hroom.read hf hstage)
      rw [show t.c.toResponse = _ from hafter]
      exact ⟨fun _ => ⟨hfit.1, hfit.2.1⟩, hfit.2.2⟩
  | _ => trivial

/-- The description of the device, sent in one go. -/
def ssdpRun : List (Answers × Event) :=
  [(openNet, .accept 7), (openNet, receiveText 0 "GET /upnp_device.xml HTTP/1.1\r\n\r\n"),
    (openNet, .sent 0 248), (openNet, .sent 0 128)]

/-- The same with a send window that takes one byte of the header at first. -/
def narrowRun : List (Answers × Event) :=
  [(openNet, .accept 7),
    (⟨[1, 0], [], []⟩, receiveText 0 "GET /upnp_device.xml HTTP/1.1\r\n\r\n"),
    (openNet, .sent 0 1)]

theorem response_body_capacity_ssdp :
    (∀ a ∈ (((Server.boot plainWorld).run ssdpRun).slot 0).log, LoadRoom a) ∧
      ∀ a ∈ (((Server.boot plainWorld).run ssdpRun).slot 0).log, LoadFits a := by
  have hrun : (Server.boot plainWorld).RunLegal ssdpRun ∧
      0 < ((Server.boot plainWorld).run ssdpRun).slots.length ∧
      ∀ a ∈ (((Server.boot plainWorld).run ssdpRun).slot 0).log, LoadRoom a := by decide +kernel
  exact ⟨hrun.2.2, fun a ha => response_body_capacity
    ((Server.Reachable.boot plainWorld).run hrun.1) (Server.slot_mem hrun.2.1) a ha
    (hrun.2.2 a ha)⟩

/-- 247 bytes of the header are left, and the handler is given the size -3. -/
theorem response_body_capacity_narrow :
    (Server.boot plainWorld).RunLegal narrowRun ∧
      ¬ ∀ a ∈ (((Server.boot plainWorld).run narrowRun).slot 0).log, LoadFits a := by
  decide +kernel

end Httpd
