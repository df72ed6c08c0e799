import LambdaIOT.Httpd.Sending

/-!
# What a connection sends of a response

A `Transfer` is the history of the response under way, read off the log: the header and the
content that were put into the send buffer, what the handler returned, and what
`altcp_write` accepted. As long as no write fails, what was accepted and what is still
pending are what was put, in order (`TransferInv`).
-/

namespace Httpd

open CMem Lwip

/-! ## The history of a response -/

/-- What is known of a response: the bytes put by `CGI_SetResponseHeaders` and by
`CGI_LoadContentToSend`, the bytes that each `ReadContent` returned, the bytes accepted by
`altcp_write`, and whether a write failed. -/
structure Transfer where
  header : Bytes
  content : Bytes
  reads : List Bytes
  accepted : Bytes
  failed : Bool

namespace Transfer

/-- No response. -/
def zero : Transfer := ⟨[], [], [], [], false⟩

/-- The bytes of one call of `ReadContent`. -/
def returned (w : World) (h : Request) (before : Response) : Bytes :=
  match readerOf h with
  | none => []
  | some f =>
    if before.dwOperStage < stageEnd then
      (readOf f w h before).out.take (readOf f w h before).size.toNat
    else []

/-- The bytes that a load puts behind those that are pending. -/
def loaded (before after : Response) : Bytes := after.pending.drop before.bytesLeft.toNat

/-- One entry of the log. -/
def add (t : Transfer) : Act → Transfer
  | .headers _ _ after => { zero with header := after.pending }
  | .load w h before after _ =>
    { t with content := t.content ++ loaded before after, reads := t.reads ++ [returned w h before] }
  | .write bs ok => if ok then { t with accepted := t.accepted ++ bs } else { t with failed := true }
  | .reset .. => zero
  | .freed => zero
  | _ => t

/-- The response that a log ends in. -/
def ofLog (log : List Act) : Transfer := log.foldl add zero

theorem ofLog_append (log l : List Act) : ofLog (log ++ l) = l.foldl add (ofLog log) :=
  List.foldl_append

/-- The entries that a history takes in. -/
def takes : Act → Bool
  | .headers .. => true
  | .load .. => true
  | .write .. => true
  | .reset .. => true
  | .freed => true
  | _ => false

theorem add_other (t : Transfer) {a : Act} (h : takes a = false) : t.add a = t := by
  cases a <;> first | rfl | cases h

theorem foldl_other (t : Transfer) {l : List Act} (h : ∀ a ∈ l, takes a = false) :
    l.foldl add t = t := by
  induction l with
  | nil => rfl
  | cons a l ih =>
    rw [List.foldl_cons, add_other t (h a (List.mem_cons_self ..))]
    exact ih fun b hb => h b (List.mem_cons_of_mem _ hb)

/-- Only entries that do not count. -/
theorem ofLog_other (log : List Act) {l : List Act} (h : ∀ a ∈ l, takes a = false) :
    ofLog (log ++ l) = ofLog log := by
  rw [ofLog_append, foldl_other _ h]

theorem ofLog_headers (log : List Act) (h : Request) (before after : Response) :
    ofLog (log ++ [.headers h before after]) = { zero with header := after.pending } := by
  rw [ofLog_append]
  rfl

theorem ofLog_load (log : List Act) (w : World) (h : Request) (before after : Response) (d : Int) :
    ofLog (log ++ [.load w h before after d]) = { ofLog log with
      content := (ofLog log).content ++ loaded before after
      reads := (ofLog log).reads ++ [returned w h before] } := by
  rw [ofLog_append]
  rfl

/-- Writes move the accepted bytes on, or fail. -/
theorem foldl_writes (t : Transfer) {l : List Act} (h : ∀ a ∈ l, a.isWrite) :
    ∃ bs, l.foldl add t = { t with
      accepted := t.accepted ++ bs, failed := (l.foldl add t).failed } := by
  induction l generalizing t with
  | nil => exact ⟨[], by rw [List.append_nil]; rfl⟩
  | cons a l ih =>
    have hw := h a (List.mem_cons_self ..)
    obtain ⟨bs, heq⟩ := ih (t.add a) fun b hb => h b (List.mem_cons_of_mem _ hb)
    cases a with
    | write xs ok =>
      rw [List.foldl_cons, heq]
      cases ok with
      | true => exact ⟨xs ++ bs, by rw [← List.append_assoc]; rfl⟩
      | false => exact ⟨bs, rfl⟩
    | _ => cases hw

end Transfer

/-! ## Sending -/

theorem pending_split {r : Response} {n k : Nat} (h : r.bytesLeft.toNat = n + k) :
    r.pending = load r.mem 0 n ++ load r.mem n k := by
  rw [Response.pending, h, ← load_zero, load_add, Nat.zero_add]

/-- A write takes its bytes from the front of what is pending. -/
theorem afterWrite_pending {s : Sys} {n : Nat} (hn : (n : Int) ≤ s.c.bytesLeft) (hpos : 0 < n)
    (hfit : s.c.bytesLeft ≤ s.c.mem.length) :
    s.c.toResponse.pending = load s.c.mem 0 n ++ (afterWrite s n).c.toResponse.pending := by
  obtain ⟨k, hk⟩ : ∃ k : Nat, s.c.bytesLeft = n + k := ⟨(s.c.bytesLeft - n).toNat, by omega⟩
  have hleft : (afterWrite s n).c.bytesLeft = k := by
    show s.c.bytesLeft - n = k
    omega
  rw [pending_split (show s.c.toResponse.bytesLeft.toNat = n + k by omega)]
  refine congrArg _ ?_
  rw [Response.pending, hleft, Int.toNat_natCast]
  show _ = (store (if 0 < s.c.bytesLeft - n then
    store s.c.mem 0 (load s.c.mem n (s.c.bytesLeft - n).toNat) else s.c.mem)
      (s.c.bytesLeft - n).toNat [0]).take k
  rw [show (s.c.bytesLeft - n).toNat = k by omega, take_store (le_refl _)]
  by_cases hmore : 0 < s.c.bytesLeft - n
  · rw [if_pos hmore, ← load_zero]
    have hlen : (load s.c.mem n k).length = k := length_load (by omega)
    have hfits : 0 + (load s.c.mem n k).length ≤ s.c.mem.length := by
      rw [hlen]
      omega
    have hself := load_store_self hfits
    rw [hlen] at hself
    exact hself.symm
  · have hzero : k = 0 := by omega
    rw [if_neg hmore, hzero]
    rfl

/-- The writes `log` lead from `s` to `s'`: they take a prefix of what is pending, unless one
of them fails. -/
structure Sent (s s' : Sys) (ok : Bool) (log : List Act) : Prop where
  logged : s'.c.log = s.c.log ++ log
  moved : ∀ t : Transfer, (log.foldl Transfer.add t).failed = false →
    ∃ bs, log.foldl Transfer.add t = { t with accepted := t.accepted ++ bs } ∧
      s.c.toResponse.pending = bs ++ s'.c.toResponse.pending
  failed : ok = false → ∀ t : Transfer, (log.foldl Transfer.add t).failed = true

theorem Sent.nothing {s s' : Sys} (h : s'.c = s.c) : Sent s s' true [] where
  logged := by rw [h, List.append_nil]
  moved := fun t _ => ⟨[], by rw [List.append_nil]; rfl, by rw [h]; rfl⟩
  failed := fun h => nomatch h

/-- One write in front of others. -/
theorem Sent.write {s t u : Sys} {ok : Bool} {log : List Act} (h : Sent t u ok log) (bs : Bytes)
    (hlog : t.c.log = s.c.log ++ [.write bs true])
    (hpending : s.c.toResponse.pending = bs ++ t.c.toResponse.pending) :
    Sent s u ok ([.write bs true] ++ log) where
  logged := by rw [h.logged, hlog, List.append_assoc]
  moved := by
    intro x hx
    obtain ⟨bs', hfold, hpend⟩ := h.moved (x.add (.write bs true)) hx
    refine ⟨bs ++ bs', ?_, ?_⟩
    · rw [List.foldl_append]
      show log.foldl Transfer.add (x.add (.write bs true)) = _
      rw [hfold, ← List.append_assoc]
      rfl
    · rw [hpending, hpend, List.append_assoc]
  failed := fun hok x => h.failed hok (x.add (.write bs true))

/-- `sendBuffered` hands over a prefix of what is pending, unless a write fails. -/
theorem sendLoop_sent (fuel : Nat) {s : Sys} (h0 : 0 ≤ s.c.bytesLeft)
    (hfit : s.c.bytesLeft ≤ s.c.mem.length) :
    ∃ log, Sent s (sendLoop fuel s).1 (sendLoop fuel s).2 log := by
  induction fuel generalizing s with
  | zero => exact ⟨[], .nothing rfl⟩
  | succ fuel ih =>
    rw [sendLoop]
    by_cases hleft : 0 < s.c.bytesLeft
    · rw [if_pos hleft]
      dsimp only
      by_cases hwindow : s.sndbuf = 0
      · rw [if_pos hwindow]
        exact ⟨[], .nothing rfl⟩
      · rw [if_neg hwindow]
        obtain ⟨n, hn⟩ : ∃ n, n = min s.afterSndbuf.c.bytesLeft.toNat s.sndbuf := ⟨_, rfl⟩
        rw [← hn]
        rw [show s.afterSndbuf.c.bytesLeft = s.c.bytesLeft from rfl] at hn
        by_cases hok : s.afterSndbuf.writeOk
        · rw [if_pos hok]
          have hmem : (afterWrite (s.afterSndbuf.altcpWrite (load s.afterSndbuf.c.mem 0 n)) n).c.mem.length
              = s.c.mem.length := by
            show (store (if _ then _ else _) _ _).length = _
            rw [length_store]
            split
            · exact length_store ..
            · rfl
          obtain ⟨log, hlog⟩ := ih
            (s := afterWrite (s.afterSndbuf.altcpWrite (load s.afterSndbuf.c.mem 0 n)) n)
            (show 0 ≤ s.c.bytesLeft - n by omega)
            (by
              rw [hmem]
              exact show s.c.bytesLeft - n ≤ s.c.mem.length by omega)
          refine ⟨_, hlog.write (load s.c.mem 0 n) ?_ ?_⟩
          · show s.c.log ++ [.write _ s.afterSndbuf.writeOk] = _
            rw [hok]
            rfl
          · exact afterWrite_pending
              (s := s.afterSndbuf.altcpWrite (load s.afterSndbuf.c.mem 0 n)) (n := n)
              (show (n : Int) ≤ s.c.bytesLeft by omega) (by omega) hfit
        · rw [if_neg hok]
          have hfailed : s.afterSndbuf.writeOk = false := by simpa using hok
          refine ⟨[.write (load s.c.mem 0 n) false], ?_, (by rintro t ⟨⟩), fun _ t => rfl⟩
          show s.c.log ++ [.write _ s.afterSndbuf.writeOk] = _
          rw [hfailed]
          rfl
    · rw [if_neg hleft]
      exact ⟨[], .nothing rfl⟩

theorem sendBuffered_sent {s : Sys} (h0 : 0 ≤ s.c.bytesLeft)
    (hfit : s.c.bytesLeft ≤ s.c.mem.length) :
    ∃ log, Sent s (sendBuffered s).1 (sendBuffered s).2 log := sendLoop_sent _ h0 hfit

/-! ## Loading -/

theorem take_putSend {r : Response} {off : Int} {bs : Bytes} {n : Nat} (h : n ≤ off.toNat) :
    (r.putSend off bs).mem.take n = r.mem.take n := by
  unfold Response.putSend
  dsimp only
  split
  · exact take_store h
  · rfl

theorem putSend_fault {r : Response} {off : Int} {bs : Bytes}
    (h : (r.putSend off bs).fault = false) :
    r.fault = false ∧ (bs = [] ∨ (0 ≤ off ∧ off + bs.length ≤ memSize)) := by
  have hboth : r.fault = false ∧ decide (Response.sendFits off bs) = true := by
    simpa [Response.putSend] using h
  exact ⟨hboth.1, of_decide_eq_true hboth.2⟩

theorem putSend_load {r : Response} {off : Int} {bs : Bytes} (hmem : r.mem.length = memSize)
    (hfits : bs = [] ∨ (0 ≤ off ∧ off + bs.length ≤ memSize)) :
    load (r.putSend off bs).mem off.toNat bs.length = bs := by
  unfold Response.putSend
  dsimp only
  rw [if_pos (show Response.sendFits off bs from hfits)]
  rcases hfits with hnil | ⟨h0, hfits⟩
  · rw [hnil]
    rfl
  · exact load_store_self (by omega)

theorem putSend_before {r : Response} {off : Int} {bs : Bytes} {a n : Nat} (h : a + n ≤ off.toNat) :
    load (r.putSend off bs).mem a n = load r.mem a n := by
  unfold Response.putSend
  dsimp only
  split
  · exact load_store_before h
  · rfl

theorem putSend_after {r : Response} {off : Int} {bs : Bytes} {a n : Nat}
    (h : off.toNat + bs.length ≤ a) : load (r.putSend off bs).mem a n = load r.mem a n := by
  unfold Response.putSend
  dsimp only
  split
  · exact load_store_after h
  · rfl

theorem putSend_memLength (r : Response) (off : Int) (bs : Bytes) :
    (r.putSend off bs).mem.length = r.mem.length := by
  unfold Response.putSend
  dsimp only
  split
  · exact length_store ..
  · rfl

/-- `r'` is `r` with `bs` behind the bytes that are pending, all of it inside the memory. -/
structure Appended (r r' : Response) (bs : Bytes) : Prop where
  pending : r'.pending = r.pending ++ bs
  left : r'.bytesLeft = r.bytesLeft + bs.length
  fits : r'.bytesLeft ≤ memSize

theorem Appended.nothing {r r' : Response} (hleft : r'.bytesLeft = r.bytesLeft)
    (hmem : r'.mem.take r.bytesLeft.toNat = r.mem.take r.bytesLeft.toNat)
    (hfit : r.bytesLeft ≤ memSize) : Appended r r' [] where
  pending := by rw [List.append_nil, Response.pending, hleft, hmem, Response.pending]
  left := by rw [hleft, List.length_nil]; omega
  fits := by rw [hleft]; exact hfit

/-- What is read at the end of the pending bytes is behind them. -/
theorem Appended.of_load {r r' : Response} {bs : Bytes} (h0 : 0 ≤ r.bytesLeft)
    (hleft : r'.bytesLeft = r.bytesLeft + bs.length)
    (hmem : r'.mem.take r.bytesLeft.toNat = r.mem.take r.bytesLeft.toNat)
    (hload : load r'.mem r.bytesLeft.toNat bs.length = bs) (hfit : r'.bytesLeft ≤ memSize) :
    Appended r r' bs where
  pending := by
    rw [pending_split (show r'.bytesLeft.toNat = r.bytesLeft.toNat + bs.length by omega), load_zero,
      hmem, hload, Response.pending]
  left := hleft
  fits := hfit

/-- A load of the first bytes of a longer one. -/
theorem load_take {m bs : Bytes} {off n : Nat} (h : load m off bs.length = bs) :
    load m off (bs.take n).length = bs.take n := by
  rw [List.length_take]
  conv_rhs => rw [← h]
  rw [load, load, List.take_take]

theorem storePlain_appended {r : Response} {k : Content} (h0 : 0 ≤ r.bytesLeft)
    (hleft : r.bytesLeft ≤ memSize) (hmem : r.mem.length = memSize) (hcount : Counted k)
    (hok : (storePlain r r.bytesLeft k).fault = false) :
    Appended r (storePlain r r.bytesLeft k) (k.out.take k.size.toNat) := by
  have hcount' : k.size ≤ k.out.length := hcount
  have hput : (r.putSend r.bytesLeft k.out).fault = false := by
    unfold storePlain at hok
    dsimp only at hok
    split at hok
    · exact hok
    · exact hok
  obtain ⟨-, hfits⟩ := putSend_fault hput
  unfold storePlain
  dsimp only
  by_cases hneg : k.size < 0
  · rw [if_pos hneg, show k.size.toNat = 0 by omega]
    exact .nothing rfl (take_putSend (le_refl _)) hleft
  · rw [if_neg hneg]
    have hlen : (k.out.take k.size.toNat).length = k.size.toNat := by
      rw [List.length_take]
      omega
    have hsum : r.bytesLeft + k.size ≤ memSize := by
      rcases hfits with hnil | ⟨-, hfits⟩
      · rw [hnil, List.length_nil] at hcount'
        omega
      · omega
    refine .of_load h0 ?_ (take_putSend (le_refl _)) (load_take ?_) hsum
    · show r.bytesLeft + k.size = _
      rw [hlen]
      omega
    · exact putSend_load hmem hfits

theorem length_chunkPrefix_le (first : Bool) {n : Nat} (h : n < 4096) :
    (chunkPrefix first n).length ≤ 7 := by
  have hcrlf : crlf.length = 2 := by decide
  have hhex : (hexUpper n).length ≤ 3 := length_positional_le (by decide) (by decide) h
  unfold chunkPrefix
  rw [List.length_append, List.length_append, hcrlf]
  split
  · rw [List.length_nil]
    omega
  · rw [hcrlf]
    omega

/-- The chunk around `n` bytes that lie ten bytes behind the pending ones. -/
theorem wrapChunk_appended {r : Response} {first : Bool} {data : Bytes} (h0 : 0 ≤ r.bytesLeft)
    (hmem : r.mem.length = memSize)
    (hdata : load r.mem (r.bytesLeft.toNat + 10) data.length = data)
    (hroom : r.bytesLeft + 10 + data.length ≤ memSize)
    (hok : (wrapChunk r r.bytesLeft first data.length).fault = false) :
    Appended r (wrapChunk r r.bytesLeft first data.length)
      (chunkPrefix first data.length ++ data ++ chunkEnding r) := by
  have hsize : memSize = 512 := rfl
  have hpre := length_chunkPrefix_le first (show data.length < 4096 by omega)
  unfold wrapChunk at hok ⊢
  dsimp only at hok ⊢
  generalize chunkPrefix first data.length = pre at hpre hok ⊢
  generalize chunkEnding r = ending at hok ⊢
  obtain ⟨a, ha⟩ : ∃ a : Nat, r.bytesLeft = a := ⟨r.bytesLeft.toNat, by omega⟩
  rw [ha] at hok hdata hroom ⊢
  rw [Int.toNat_natCast] at hdata
  have hstart : ((a : Int) + 10 - pre.length) = ((a + 10 - pre.length : Nat) : Int) := by omega
  rw [hstart] at hok ⊢
  obtain ⟨start, hs⟩ : ∃ start, start = a + 10 - pre.length := ⟨_, rfl⟩
  rw [← hs] at hok ⊢
  obtain ⟨hok3, -⟩ := putSend_fault (r := (r.putSend start pre).putSend
    (start + (data.length + pre.length : Nat)) ending) hok
  obtain ⟨hok2, hfit3⟩ := putSend_fault hok3
  obtain ⟨-, hfit2⟩ := putSend_fault hok2
  obtain ⟨r2, hr2⟩ : ∃ r2, r2 = r.putSend start pre := ⟨_, rfl⟩
  obtain ⟨r3, hr3⟩ : ∃ r3, r3 = r2.putSend (start + (data.length + pre.length : Nat)) ending :=
    ⟨_, rfl⟩
  rw [← hr2, ← hr3] at hok ⊢
  have hmem2 : r2.mem.length = memSize := by rw [hr2, putSend_memLength]; exact hmem
  have hmem3 : r3.mem.length = memSize := by rw [hr3, putSend_memLength]; exact hmem2
  have hpre2 : load r2.mem start pre.length = pre := by
    rw [hr2]
    exact putSend_load hmem hfit2
  have hdata2 : load r2.mem (start + pre.length) data.length = data := by
    rw [hr2, putSend_after (by rw [Int.toNat_natCast])]
    rwa [show start + pre.length = a + 10 by omega]
  have hfit3' : start + pre.length + data.length + ending.length ≤ memSize := by
    rcases hfit3 with hnil | ⟨-, hfit3⟩
    · rw [hnil, List.length_nil]
      omega
    · omega
  have hload3 : load r3.mem start (data.length + pre.length + ending.length) =
      pre ++ data ++ ending := by
    have hoff : ((start : Int) + (data.length + pre.length : Nat)).toNat =
        start + (pre.length + data.length) := by omega
    rw [show data.length + pre.length + ending.length = pre.length + data.length + ending.length by
      omega, load_add, load_add, hr3, putSend_before (by rw [hoff]; omega),
      putSend_before (by rw [hoff]; omega), hpre2, hdata2, ← hoff]
    exact congrArg _ (putSend_load hmem2 hfit3)
  have htotal : (pre ++ data ++ ending).length = data.length + pre.length + ending.length := by
    rw [List.length_append, List.length_append]
    omega
  have hkept : (r3.putSend a (pre ++ data ++ ending)).mem.take a = r.mem.take a := by
    rw [take_putSend (by omega), hr3, take_putSend (by omega), hr2, take_putSend (by omega)]
  have hput : load (r3.putSend a (pre ++ data ++ ending)).mem a (pre ++ data ++ ending).length =
      pre ++ data ++ ending :=
    putSend_load hmem3 (.inr ⟨by omega, by omega⟩)
  have hleft3 : r3.bytesLeft = a := by
    rw [hr3, hr2]
    exact ha
  rw [Int.toNat_natCast, hload3]
  refine .of_load h0 ?_ ?_ ?_ ?_
  · show r3.bytesLeft + _ = _
    rw [hleft3, ha, htotal]
  · rw [ha, Int.toNat_natCast]
    exact hkept
  · rw [ha, Int.toNat_natCast]
    exact hput
  · show r3.bytesLeft + _ ≤ _
    rw [hleft3]
    omega

/-- The bytes that the chunked branch puts for what the handler returned. -/
def chunkOf (r : Response) (first : Bool) (k : Content) : Bytes :=
  if 0 < k.size then
    chunkPrefix first k.size.toNat ++ k.out.take k.size.toNat ++ chunkEnding r
  else []

theorem storeChunk_appended {r : Response} {first : Bool} {k : Content} (h0 : 0 ≤ r.bytesLeft)
    (hleft : r.bytesLeft ≤ memSize) (hmem : r.mem.length = memSize) (hcount : Counted k)
    (hok : (storeChunk r r.bytesLeft first k).fault = false) :
    Appended r (storeChunk r r.bytesLeft first k) (chunkOf r first k) := by
  have hcount' : k.size ≤ k.out.length := hcount
  unfold storeChunk at hok ⊢
  unfold chunkOf
  dsimp only at hok ⊢
  have hkept : (r.putSend (r.bytesLeft + 10) k.out).mem.take r.bytesLeft.toNat =
      r.mem.take r.bytesLeft.toNat := take_putSend (by omega)
  by_cases hpos : 0 < k.size
  · rw [if_pos hpos] at hok ⊢
    rw [if_pos hpos]
    have hput : (r.putSend (r.bytesLeft + 10) k.out).fault = false := by
      unfold wrapChunk at hok
      dsimp only at hok
      exact (putSend_fault (putSend_fault (putSend_fault (r := Response.putSend _ _ _) hok).1).1).1
    obtain ⟨-, hfits⟩ := putSend_fault hput
    have hfits' : r.bytesLeft + 10 + k.out.length ≤ memSize := by
      rcases hfits with hnil | ⟨-, hfits⟩
      · rw [hnil, List.length_nil] at hcount'
        omega
      · exact hfits
    have hload := putSend_load hmem hfits
    rw [show (r.bytesLeft + 10).toNat = r.bytesLeft.toNat + 10 by omega] at hload
    replace hload := load_take (n := k.size.toNat) hload
    obtain ⟨data, hdata⟩ : ∃ data, data = k.out.take k.size.toNat := ⟨_, rfl⟩
    have hlen : k.size.toNat = data.length := by
      rw [hdata, List.length_take]
      omega
    rw [← hdata] at hload ⊢
    rw [hlen] at hok ⊢
    have hwrap := wrapChunk_appended (r := r.putSend (r.bytesLeft + 10) k.out)
      h0 (by rw [putSend_memLength]; exact hmem) hload
      (show r.bytesLeft + 10 + (data.length : Int) ≤ memSize by omega) hok
    refine ⟨hwrap.pending.trans ?_, hwrap.left, hwrap.fits⟩
    exact congrArg (· ++ (chunkPrefix first data.length ++ data ++ chunkEnding r)) hkept
  · rw [if_neg hpos, if_neg hpos]
    exact .nothing rfl hkept hleft

/-- What a call that reads appends. -/
def appendedBy (f : Request → Call → Int → Content) (w : World) (h : Request) (r : Response) :
    Bytes :=
  let k := readOf f w h r
  if r.options.chunkEnabled then
    chunkOf k.call.r (decide (r.dwOperStage = 0 ∧ r.dwOperIndex = 0)) k
  else k.out.take k.size.toNat

/-- A call that reads appends to the pending bytes, as long as these stay in front of the
application context that the reader works on. -/
theorem afterRead_appended {f : Request → Call → Int → Content} {w : World} {h : Request}
    {r : Response} (hf : readerOf h = some f) (h0 : 0 ≤ r.bytesLeft)
    (hleft : r.bytesLeft ≤ maxSendBufSize) (hmem : r.mem.length = memSize)
    (hok : (afterRead f w h r).fault = false) :
    Appended r (afterRead f w h r) (appendedBy f w h r) := by
  obtain ⟨cgi, -, hread⟩ := Option.bind_eq_some_iff.mp hf
  have hcount : Counted (readOf f w h r) := readContent_counted hread ..
  obtain ⟨_, _, _, _, mem, _, hframe, hlen, htake, -⟩ := readerOf_frame hf w r
  have hbuf : (maxSendBufSize : Int) = 256 := rfl
  have hsize : (memSize : Int) = 512 := rfl
  have hk : (readOf f w h r).call.r.bytesLeft = r.bytesLeft ∧
      (readOf f w h r).call.r.mem.length = memSize ∧
      (readOf f w h r).call.r.pending = r.pending := by
    rw [hframe]
    refine ⟨rfl, hlen.trans hmem, ?_⟩
    show mem.take r.bytesLeft.toNat = r.mem.take r.bytesLeft.toNat
    have hmin : r.bytesLeft.toNat = min r.bytesLeft.toNat maxSendBufSize := by omega
    rw [hmin, ← List.take_take, ← List.take_take, htake]
  unfold afterRead at hok ⊢
  unfold appendedBy
  dsimp only at hok ⊢
  generalize readOf f w h r = k at hcount hk hok ⊢
  obtain ⟨hb, hm, hp⟩ := hk
  have hmove : ∀ {r' : Response} {bs : Bytes}, Appended k.call.r r' bs → Appended r r' bs :=
    fun ha => ⟨by rw [← hp]; exact ha.pending, by rw [← hb]; exact ha.left, ha.fits⟩
  by_cases hchunk : r.options.chunkEnabled
  · rw [if_pos hchunk] at hok ⊢
    rw [if_pos hchunk]
    rw [← hb] at hok h0 hleft ⊢
    exact hmove (storeChunk_appended h0 (by omega) hm hcount hok)
  · rw [if_neg hchunk] at hok ⊢
    rw [if_neg hchunk]
    rw [← hb] at hok h0 hleft ⊢
    exact hmove (storePlain_appended h0 (by omega) hm hcount hok)

/-! ## The invariant -/

/-- A load finds the pending bytes in front of the application context. -/
def Apart : Act → Prop
  | .load _ _ before _ _ => before.bytesLeft ≤ maxSendBufSize
  | _ => True

instance : DecidablePred Apart := fun a => by
  apply @Act.casesOn (fun a => Decidable (Apart a)) a <;> intros <;> unfold Apart <;> infer_instance

/-- What was put is what was accepted and what is pending, unless a write failed. -/
structure Tracked (c : RequestContext) : Prop where
  left : 0 ≤ c.bytesLeft
  fits : c.bytesLeft ≤ memSize
  whole : (Transfer.ofLog c.log).failed = false →
    (Transfer.ofLog c.log).header ++ (Transfer.ofLog c.log).content =
      (Transfer.ofLog c.log).accepted ++ c.toResponse.pending

/-- While a response is sent it is tracked. -/
def TransferInv (c : RequestContext) : Prop := c.sending = true → Tracked c

theorem transferInv_idle {c : RequestContext} (h : c.sending = false) : TransferInv c := by
  intro hs
  rw [h] at hs
  cases hs

/-- A step that neither touches the buffer nor logs anything of the response. -/
theorem tracked_quiet {c c' : RequestContext} (hi : Tracked c)
    (hleft : c'.bytesLeft = c.bytesLeft) (hmem : c'.mem = c.mem) {l : List Act}
    (hlog : c'.log = c.log ++ l) (hl : ∀ a ∈ l, Transfer.takes a = false) : Tracked c' where
  left := by rw [hleft]; exact hi.left
  fits := by rw [hleft]; exact hi.fits
  whole := by
    rw [hlog, Transfer.ofLog_other _ hl, Response.pending, hleft, hmem]
    exact hi.whole

theorem tracked_same {c c' : RequestContext} (hi : Tracked c) (hleft : c'.bytesLeft = c.bytesLeft)
    (hmem : c'.mem = c.mem) (hlog : c'.log = c.log) : Tracked c' :=
  tracked_quiet hi hleft hmem (l := []) (by rw [hlog, List.append_nil]) fun _ h => nomatch h

theorem takes_of_rx {a : Act} (h : a.isRx) : Transfer.takes a = false := by
  cases a <;> first | rfl | cases h

theorem takes_of_callback {a : Act} (h : a.isCallback) : Transfer.takes a = false := by
  cases a <;> first | rfl | cases h

/-- Sending keeps track. -/
theorem tracked_send {s : Sys} (hi : Tracked s.c) (hmem : s.c.mem.length = memSize) :
    Tracked (sendBuffered s).1.c := by
  obtain ⟨log, hsent⟩ := sendBuffered_sent hi.left (by rw [hmem]; exact hi.fits)
  have hleft := sendBuffered_bytesLeft hi.left
  refine ⟨hleft.1, hleft.2.trans hi.fits, fun hok => ?_⟩
  rw [hsent.logged, Transfer.ofLog_append] at hok ⊢
  obtain ⟨bs, hfold, hpending⟩ := hsent.moved _ hok
  rw [hfold] at hok ⊢
  have hwhole := hi.whole hok
  rw [hpending, ← List.append_assoc] at hwhole
  exact hwhole

theorem sendRemaining_tracked {s : Sys} (hi : Tracked s.c) (hmem : s.c.mem.length = memSize) :
    Tracked (sendRemaining s).c := by
  have hsent := tracked_send hi hmem
  unfold sendRemaining
  dsimp only
  split
  · exact hsent
  · exact tracked_same hsent rfl rfl rfl

/-- A header is put into the buffer, and nothing of it is accepted yet. -/
theorem tracked_headers {s : Sys} (hmem : s.c.mem.length = memSize) (codeInfo : Bytes) :
    Tracked (cgiSetResponseHeaders s codeInfo).c ∧
      (cgiSetResponseHeaders s codeInfo).c.mem.length = memSize := by
  obtain ⟨t, ht, heq⟩ := cgiSetResponseHeaders_spec s codeInfo
  obtain ⟨_, mem, _, _, _, _, hframe, hlen⟩ := cgiSetResponseHeaders_frame s codeInfo
  have hkept : (cgiSetResponseHeaders s codeInfo).c.mem.length = memSize := by
    show (Response.mem (cgiSetResponseHeaders s codeInfo).c.toResponse).length = _
    rw [hframe]
    exact hlen.trans hmem
  refine ⟨⟨cgiSetResponseHeaders_bytesLeft s codeInfo, ?_, fun _ => ?_⟩, hkept⟩
  · have hbound : (cgiSetResponseHeaders s codeInfo).c.bytesLeft ≤
        ((cgiSetResponseHeaders s codeInfo).c.mem.length : Int) :=
      Int.ofNat_le.mpr (strlen_le _)
    rw [hkept] at hbound
    exact hbound
  · have hlog : ∃ l h b, (cgiSetResponseHeaders s codeInfo).c.log =
        l ++ [.headers h b (cgiSetResponseHeaders s codeInfo).c.toResponse] := by
      rw [heq]
      exact ⟨_, _, _, rfl⟩
    obtain ⟨l, h, b, hlog⟩ := hlog
    rw [hlog, Transfer.ofLog_headers, Transfer.zero, List.append_nil, List.nil_append]

theorem startResponse_transfer {s : Sys} (hmem : s.c.mem.length = memSize) :
    TransferInv (startResponse s).c := by
  have hbegin : (beginResponse s).c.mem.length = memSize := hmem
  obtain ⟨htracked, hlen⟩ := tracked_headers hbegin (codeInfoOf s.c.result)
  have hsent := tracked_send htracked hlen
  intro _
  unfold startResponse
  dsimp only
  generalize sendBuffered _ = v at hsent ⊢
  split
  · split
    · exact tracked_same hsent rfl rfl rfl
    · exact tracked_same hsent rfl rfl rfl
  · exact tracked_same hsent rfl rfl rfl

theorem length_pending {r : Response} (hmem : r.mem.length = memSize)
    (hfit : r.bytesLeft ≤ memSize) : r.pending.length = r.bytesLeft.toNat := by
  rw [Response.pending, List.length_take]
  omega

/-- What a load appends. -/
def appendedOf (w : World) (h : Request) (before : Response) : Bytes :=
  match readerOf h with
  | none => []
  | some f => if before.dwOperStage < stageEnd then appendedBy f w h before else []

/-- A load keeps the pending bytes and appends to them. -/
theorem loadContent_appended {s : Sys} (caller : Caller) (h0 : 0 ≤ s.c.bytesLeft)
    (hapart : s.c.bytesLeft ≤ maxSendBufSize) (hmem : s.c.mem.length = memSize)
    (hok : (loadContent s caller).1.c.fault = false) :
    Appended s.c.toResponse (loadContent s caller).1.c.toResponse
      (appendedOf s.w s.c.toRequest s.c.toResponse) := by
  have hbuf : (maxSendBufSize : Int) = 256 := rfl
  have hsize : (memSize : Int) = 512 := rfl
  unfold appendedOf
  rcases loadContent_cases s caller with ⟨hframe, -, hnone⟩ | ⟨f, hf, hstage, hafter, -⟩
  · have hempty : (match readerOf s.c.toRequest with
        | none => []
        | some f => if s.c.dwOperStage < stageEnd then
            appendedBy f s.w s.c.toRequest s.c.toResponse else []) = [] := by
      rcases hnone with hnone | hend
      · rw [hnone]
      · cases readerOf s.c.toRequest with
        | none => rfl
        | some f => exact if_neg (Nat.not_lt.mpr hend)
    rw [hempty]
    refine .nothing hframe.bytesLeft ?_ (by omega)
    obtain ⟨_, _, _, _, _, _, heq, -, htake, -⟩ := hframe
    rw [heq]
    have hmin : s.c.bytesLeft.toNat = min s.c.bytesLeft.toNat maxSendBufSize := by omega
    rw [hmin, ← List.take_take, ← List.take_take]
    exact congrArg _ htake
  · rw [hf, hafter]
    dsimp only
    rw [if_pos hstage]
    refine afterRead_appended hf h0 hapart hmem ?_
    rw [← hafter]
    exact hok

theorem Appended.loaded {r r' : Response} {bs : Bytes} (h : Appended r r' bs)
    (hmem : r.mem.length = memSize) (hfit : r.bytesLeft ≤ memSize) :
    Transfer.loaded r r' = bs := by
  rw [Transfer.loaded, h.pending, List.drop_left']
  exact length_pending hmem hfit

theorem tracked_load {s : Sys} {caller : Caller} (hi : Tracked s.c)
    (hmem : s.c.mem.length = memSize) (hapart : s.c.bytesLeft ≤ maxSendBufSize)
    (hok : (cgiLoadContentToSend s caller).1.c.fault = false) :
    Tracked (cgiLoadContentToSend s caller).1.c ∧
      (cgiLoadContentToSend s caller).1.c.mem.length = memSize := by
  obtain ⟨t, d, ht, hload, heq⟩ := cgiLoadContentToSend_spec s caller
  have happ := loadContent_appended (s := s.setResponse { s.c.toResponse with peak := 0 })
    caller hi.left hapart hmem
  have hkept := (loadContent_kept (s.setResponse { s.c.toResponse with peak := 0 }) caller).size hmem
  rw [hload] at happ hkept
  rw [heq] at hok ⊢
  replace happ := happ hok
  generalize appendedOf _ _ _ = bs at happ
  have hleft : t.c.bytesLeft = s.c.bytesLeft + bs.length := happ.left
  have hpending : t.c.toResponse.pending = s.c.toResponse.pending ++ bs := happ.pending
  have hi0 := hi.left
  refine ⟨⟨?_, happ.fits, fun hfine => ?_⟩, hkept⟩
  · show 0 ≤ t.c.bytesLeft
    rw [hleft]
    omega
  · obtain ⟨w, r, log, rfl, hl⟩ := ht
    have hcalls : ∀ a ∈ log, Transfer.takes a = false := fun a ha =>
      takes_of_callback (hl a ha).isCallback
    have hbefore : Transfer.ofLog (s.c.log ++ log) = Transfer.ofLog s.c.log :=
      Transfer.ofLog_other _ hcalls
    replace hfine : (Transfer.ofLog (s.c.log ++ log ++ [.load s.w s.c.toRequest
      { s.c.toResponse with peak := 0 } r d])).failed = false := hfine
    rw [Transfer.ofLog_load, hbefore] at hfine
    have hwhole := hi.whole hfine
    have hloaded : Transfer.loaded { s.c.toResponse with peak := 0 } r = bs :=
      happ.loaded hmem hi.fits
    show (Transfer.ofLog (s.c.log ++ log ++ [.load s.w s.c.toRequest
        { s.c.toResponse with peak := 0 } r d])).header ++
      (Transfer.ofLog (s.c.log ++ log ++ [.load s.w s.c.toRequest
        { s.c.toResponse with peak := 0 } r d])).content =
      (Transfer.ofLog (s.c.log ++ log ++ [.load s.w s.c.toRequest
        { s.c.toResponse with peak := 0 } r d])).accepted ++ r.pending
    rw [Transfer.ofLog_load, hbefore]
    dsimp only
    rw [hloaded, ← List.append_assoc, hwhole, List.append_assoc]
    exact congrArg _ hpending.symm

theorem sendBody_transfer {s : Sys} {caller : Caller} (hi : Tracked s.c)
    (hmem : s.c.mem.length = memSize) (hapart : s.c.bytesLeft ≤ maxSendBufSize)
    (hok : (sendBody s caller).c.fault = false) : Tracked (sendBody s caller).c := by
  rw [sendBody_fault] at hok
  obtain ⟨htracked, hlen⟩ := tracked_load hi hmem hapart hok
  have hsent := tracked_send htracked hlen
  unfold sendBody
  dsimp only
  split
  · split
    · exact tracked_same hsent rfl rfl rfl
    · exact tracked_same hsent rfl rfl rfl
  · split
    · exact tracked_same htracked rfl rfl rfl
    · exact htracked

theorem transferInv_freed {s s' : Sys} (h : FreedFrame s s') : TransferInv s'.c := by
  obtain ⟨_, _, _, _, _, _, rfl, -⟩ := h
  exact transferInv_idle rfl

theorem transferInv_rx {s : Sys} {c : RequestContext} (hi : TransferInv s.c) (h : RxFrame s.c c) :
    TransferInv c := by
  intro hsent
  rw [h.request] at hsent
  obtain ⟨_, hresp⟩ := h.response
  obtain ⟨_, _, _, _, _, log, heq, -, hl⟩ := h
  refine tracked_quiet (hi hsent) ?_ ?_ (l := log) (by rw [heq]) fun a ha => takes_of_rx (hl a ha)
  · exact (congrArg Response.bytesLeft hresp).trans rfl
  · exact (congrArg Response.mem hresp).trans rfl

/-- Every action keeps track. -/
theorem transferInv_step {s s' : Sys} (hs : Shape s.c) (hi : SendInv s.c) (ht : TransferInv s.c)
    (h : Micro s s') (hok : s'.c.fault = false) (happart : ∀ a ∈ s'.c.log, Apart a) :
    TransferInv s'.c := by
  cases h with
  | environment w net hpcbs => exact ht
  | receive p hlive hfit => exact transferInv_rx ht (.receivePbuf ..)
  | peerClosed => exact fun hsent => tracked_same (ht hsent) rfl rfl rfl
  | touch t => exact fun hsent => tracked_same (ht hsent) rfl rfl rfl
  | acknowledged len => exact fun hsent => tracked_same (ht hsent) rfl rfl rfl
  | dequeue hst => exact transferInv_rx ht (.dequeue _)
  | startRequest hst hlen => exact transferInv_idle (hi.early (.inl (by rw [hst]; rfl)))
  | parseHeader hst hlen =>
    exact transferInv_idle (parseHeader_sending (hi.early (.inl (by rw [hst]; rfl))))
  | tooLarge hst => exact transferInv_idle (hi.early (.inl (by rw [hst]; rfl)))
  | headersEnd hst hgood =>
    refine transferInv_idle ?_
    obtain ⟨_, _, heq, -⟩ := headersEnd_eq s
    rw [heq, (CallFrame.cgiHeadersReceived _).request]
    exact hi.early (.inl (by rw [hst]; rfl))
  | refuse hst hbad hsending => exact transferInv_idle (hi.early hsending)
  | chunkLength hst hgood =>
    refine transferInv_idle ?_
    have hsent := hi.early (.inl (by rw [hst]; rfl))
    unfold chunkLength
    split
    · exact hsent
    · exact hsent
  | content size hst hgood =>
    refine transferInv_idle ((offerContent_sending s size).trans (hi.early (.inl ?_)))
    rcases hst with h | ⟨h, -⟩ <;> rw [h] <;> rfl
  | complete hst hgood =>
    refine transferInv_idle ?_
    show Request.sending (completeRequest s).c.toRequest = false
    rw [show (completeRequest s).c.toRequest = s.c.toRequest from
      (CallFrame.completeRequest s).request]
    exact hi.early (.inr hst)
  | sendRemaining hst hres hleft =>
    intro hsent
    rw [(sendRemaining_kept s).1] at hsent
    exact sendRemaining_tracked (ht hsent) hs.mem
  | startResponse hst hres hfirst => exact startResponse_transfer hs.mem
  | headerAcked hst hres hsent =>
    intro _
    unfold headerAcked
    split
    · refine tracked_quiet (ht hsent) rfl rfl (l := [.refused s.c.toResponse]) rfl fun a ha => ?_
      rw [List.mem_singleton.mp ha]
      rfl
    · exact tracked_same (ht hsent) rfl rfl rfl
  | sendBody caller hst hres hsent hstage =>
    intro _
    refine sendBody_transfer (ht hsent) hs.mem ?_ hok
    obtain ⟨t, d, hcall, -, heq⟩ := cgiLoadContentToSend_spec s caller
    have hmem : .load s.w s.c.toRequest { s.c.toResponse with peak := 0 } t.c.toResponse d ∈
        (sendBody s caller).c.log := by
      obtain ⟨l, hlog⟩ := sendBody_log s caller
      rw [hlog, heq]
      exact List.mem_append_left _ (List.mem_append_right _ (List.mem_singleton.mpr rfl))
    exact happart _ hmem
  | requestEnd hst =>
    unfold requestEnd
    split
    · exact transferInv_freed (closeHttpContext_frame s)
    · split
      · obtain ⟨_, _, heq, -⟩ := resetHttpContext_spec (s.note (.reset s.c.toRequest s.c.toResponse))
        rw [heq]
        exact transferInv_idle rfl
      · exact transferInv_freed (closeHttpContext_frame s)
  | peerGone hst hpeer => exact transferInv_idle (hi.early (.inl hst))
  | close => exact transferInv_freed (closeHttpContext_frame s)
  | free hgone => exact transferInv_freed (freeHttpContext_frame s)
  | outOfFuel => exact fun hsent => tracked_same (ht hsent) rfl rfl rfl

/-- A response under way is tracked, as long as loads find the pending bytes in front of the
application context. -/
theorem SlotReach.tracked {c : RequestContext} (h : SlotReach c) (hok : c.fault = false)
    (happart : ∀ a ∈ c.log, Apart a) (hsent : c.sending = true) : Tracked c := by
  have hboth : SendInv c ∧ TransferInv c :=
    SlotReach.induct (P := fun c => SendInv c ∧ TransferInv c)
      ⟨sendInv_idle rfl, transferInv_idle rfl⟩
      (fun s pcb ip _ _ => by
        obtain ⟨_, _, _, heq⟩ := acceptContext_spec s pcb ip
        rw [heq]
        exact ⟨sendInv_idle rfl, transferInv_idle rfl⟩)
      (fun s s' hs hi hm hok' hcond =>
        ⟨sendInv_step hi.1 hm, transferInv_step hs hi.1 hi.2 hm hok' hcond⟩) h hok happart
  exact hboth.2 hsent

end Httpd
