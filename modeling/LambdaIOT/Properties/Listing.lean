import LambdaIOT.Httpd.Listing
import LambdaIOT.Lib.Json
import LambdaIOT.Httpd.Pages

/-!
# What a folder listing denotes

A call reads a part of the folder and returns the text of the entries of that part, so the blocks
of a run make up the text of the listed entries, closed if every call had more than 200 bytes of
room and cut off otherwise (`run_open`). The closed text of at least one entry is one object; with
no entry listed there is no opening part, and `]}` alone is nothing.

The room is checked for an entry behind another. The first one stands behind the opening part and
can be longer than what was checked, and a date is printed as a `long`.
-/

namespace Httpd

open CMem

/-! ## Texts of entries -/

/-- What the directory functions promise of an entry. -/
structure DirEntry.Proper (e : DirEntry) : Prop where
  name_pos : 1 ≤ e.name.length
  name_le : e.name.length ≤ 127
  name_plain : ∀ c ∈ e.name, Json.plain c = true
  folder_min : longMin ≤ e.isFolder
  folder_max : e.isFolder ≤ longMax
  size_nonneg : 0 ≤ e.size
  size_max : e.size ≤ longMax
  date_nonneg : 0 ≤ e.date

instance (e : DirEntry) : Decidable e.Proper :=
  decidable_of_iff (1 ≤ e.name.length ∧ e.name.length ≤ 127 ∧ e.name.all Json.plain = true ∧
      longMin ≤ e.isFolder ∧ e.isFolder ≤ longMax ∧ 0 ≤ e.size ∧ e.size ≤ longMax ∧ 0 ≤ e.date)
    ⟨fun ⟨h1, h2, h3, h4, h5, h6, h7, h8⟩ => ⟨h1, h2, List.all_eq_true.mp h3, h4, h5, h6, h7, h8⟩,
      fun ⟨h1, h2, h3, h4, h5, h6, h7, h8⟩ => ⟨h1, h2, List.all_eq_true.mpr h3, h4, h5, h6, h7, h8⟩⟩

/-- An entry as a value. -/
def entryValue (e : DirEntry) : Json.Value :=
  .obj [(ascii "folder", .num e.isFolder), (ascii "name", .str e.name),
    (ascii "size", .num e.size), (ascii "date", .num e.date)]

/-- The entry with the date that is printed. -/
def printed (e : DirEntry) : DirEntry := { e with date := wrapLong e.date }

/-- The entries that are not ignored. -/
def listed (responsePath : Bytes) (folder : List DirEntry) : List DirEntry :=
  folder.filter fun e => filesListed responsePath e.name

/-- The text of entries when `total` were put out before. -/
def entriesText : Int → List DirEntry → Bytes
  | _, [] => []
  | total, e :: es => entryText total e ++ entriesText (total + 1) es

theorem entriesText_append (total : Int) (es fs : List DirEntry) :
    entriesText total (es ++ fs) = entriesText total es ++ entriesText (total + es.length) fs := by
  induction es generalizing total with
  | nil => simp [entriesText]
  | cons e es ih =>
    have hcount : total + 1 + (es.length : Int) = total + (e :: es).length := by
      simp only [List.length_cons]
      omega
    rw [List.cons_append, entriesText, ih, hcount, entriesText, List.append_assoc]

/-- Behind the first entry every text starts with a comma. -/
theorem entriesText_pos {total : Int} (htotal : 0 < total) (es : List DirEntry) :
    entriesText total es = (es.map entryObject).flatMap fun t => 44 :: t := by
  induction es generalizing total with
  | nil => rfl
  | cons e es ih =>
    rw [entriesText, entryText, if_neg (by omega), ih (by omega)]
    rfl

theorem entriesText_zero (e : DirEntry) (es : List DirEntry) :
    entriesText 0 (e :: es)
      = listingHead ++ Json.joined (entryObject e) (es.map entryObject) := by
  rw [entriesText, entryText, if_pos rfl, entriesText_pos (by decide), Json.joined,
    List.append_assoc]

/-- The names of the fields. -/
theorem plain_names : (∀ c ∈ ascii "result", Json.plain c = true) ∧
    (∀ c ∈ ascii "data", Json.plain c = true) ∧ (∀ c ∈ ascii "folder", Json.plain c = true) ∧
    (∀ c ∈ ascii "name", Json.plain c = true) ∧ (∀ c ∈ ascii "size", Json.plain c = true) ∧
    ∀ c ∈ ascii "date", Json.plain c = true := by
  simp only [← List.all_eq_true]
  decide

/-- The object of an entry reads as the entry. -/
theorem reads_entry (depth : Nat) {e : DirEntry} (he : e.Proper) :
    Json.Reads (Json.value (depth + 2)) (entryObject e) (entryValue (printed e)) := by
  obtain ⟨-, -, hfolder, hname, hsize, hdate⟩ := plain_names
  have htext : entryObject e = 123 :: (Json.joined
      (34 :: (ascii "folder" ++ 34 :: 58 :: decimal e.isFolder))
      [34 :: (ascii "name" ++ 34 :: 58 :: (34 :: (e.name ++ [34]))),
        34 :: (ascii "size" ++ 34 :: 58 :: decimal e.size),
        34 :: (ascii "date" ++ 34 :: 58 :: decimal (wrapLong e.date))] ++ [125]) := by
    simp [entryObject, Json.joined, ascii]
  rw [htext]
  refine Json.reads_obj (Json.reads_field hfolder (Json.reads_num depth _)) ?_
  constructor
  · exact Json.reads_field hname (Json.reads_str depth he.name_plain)
  constructor
  · exact Json.reads_field hsize (Json.reads_num depth _)
  constructor
  · exact Json.reads_field hdate (Json.reads_num depth _)
  · constructor

theorem reads_entries (depth : Nat) {es : List DirEntry} (hes : ∀ e ∈ es, e.Proper) :
    List.Forall₂ (Json.Reads (Json.value (depth + 2))) (es.map entryObject)
      (es.map fun e => entryValue (printed e)) := by
  induction es with
  | nil => constructor
  | cons e es ih =>
    constructor
    · exact reads_entry depth (hes e (by simp))
    · exact ih fun f hf => hes f (by simp [hf])

/-! ## Texts of listings -/

/-- The opening part is an object with its first field and an array in the second. -/
theorem listingHead_append (s : Bytes) :
    listingHead ++ s = 123 :: ((34 :: (ascii "result" ++ 34 :: 58 :: decimal 1)) ++
      44 :: 32 :: 34 :: (ascii "data" ++ 34 :: 58 :: 91 :: s)) := by
  have hone : decimal 1 = [49] := by decide
  simp [listingHead, ascii, hone]

theorem reads_result (depth : Nat) : Json.Reads (Json.field (Json.value (depth + 1)))
    (34 :: (ascii "result" ++ 34 :: 58 :: decimal 1)) (ascii "result", .num 1) :=
  Json.reads_field plain_names.1 (Json.reads_num depth 1)

/-- The listing of at least one entry, closed. -/
theorem parse_closed {e : DirEntry} {es : List DirEntry} (hes : ∀ f ∈ e :: es, f.Proper) :
    Json.parse (entriesText 0 (e :: es) ++ ascii "]\x7d") = some (.obj [(ascii "result", .num 1),
      (ascii "data", .arr ((e :: es).map fun f => entryValue (printed f)))]) := by
  have htext : entriesText 0 (e :: es) ++ ascii "]\x7d" = 123 :: (Json.joined
      (34 :: (ascii "result" ++ 34 :: 58 :: decimal 1))
      [32 :: 34 :: (ascii "data" ++ 34 :: 58 ::
        (91 :: (Json.joined (entryObject e) (es.map entryObject) ++ [93])))] ++ [125]) := by
    rw [entriesText_zero, List.append_assoc, listingHead_append]
    simp [Json.joined, ascii]
  rw [htext]
  have htail : ∀ f ∈ es, f.Proper := fun f hf => hes f (List.mem_cons_of_mem e hf)
  refine Json.parse_eq (k := 4) (fun depth => ?_) (by simp [Json.joined]; omega)
  refine Json.reads_obj (reads_result (depth + 2)) (List.Forall₂.cons ?_ List.Forall₂.nil)
  have harray := Json.reads_arr (reads_entry depth (hes e (by simp))) (reads_entries depth htail)
  intro rest hrest
  exact Json.reads_field plain_names.2.1 harray rest hrest

/-- A listing that is cut off. -/
theorem parse_cut {es : List DirEntry} (hes : ∀ e ∈ es, e.Proper) :
    Json.parse (entriesText 0 es) = none := by
  cases es with
  | nil => rfl
  | cons e es =>
    rw [entriesText_zero, listingHead_append, Json.parse]
    obtain ⟨depth, hdepth⟩ : ∃ depth, (123 :: ((34 :: (ascii "result" ++ 34 :: 58 :: decimal 1)) ++
        44 :: 32 :: 34 :: (ascii "data" ++ 34 :: 58 :: 91 ::
          Json.joined (entryObject e) (es.map entryObject)))).length + 1 = depth + 4 :=
      ⟨_, by simp [ascii]; rfl⟩
    have hfirst := reads_result (depth + 2) _ (Json.stops_cons (c := 44) (by decide)
      (32 :: 34 :: (ascii "data" ++ 34 :: 58 :: 91 ::
        Json.joined (entryObject e) (es.map entryObject))))
    have harray := Json.value_unclosed (reads_entry depth (hes e (by simp)))
      (reads_entries depth fun f hf => hes f (List.mem_cons_of_mem e hf))
    have hdata : Json.field (Json.value (depth + 3)) (32 :: 34 :: (ascii "data" ++ 34 :: 58 :: 91 ::
        Json.joined (entryObject e) (es.map entryObject))) = none := by
      rw [Json.field_blank, Json.field_cons plain_names.2.1, harray]
      rfl
    rw [hdepth, Json.value_obj (Json.skipBlanks_field hfirst),
      Json.separated_step (reads_result (depth + 2)), Json.separated_none hdata]
    rfl

/-- A text that is one object whose `data` array is these entries, in this order. -/
def Lists (text : Bytes) (es : List DirEntry) : Prop :=
  ∃ fields, Json.parse text = some (.obj fields) ∧
    fields.lookup (ascii "data") = some (.arr (es.map entryValue))

/-! ## One call -/

section Call

variable {responsePath : Bytes} {maxSize : Int}

theorem listed_append (es fs : List DirEntry) :
    listed responsePath (es ++ fs) = listed responsePath es ++ listed responsePath fs := by
  simp [listed]

/-- The loop reads a part of the entries: all of them, and closes the text, or as many as there
was room for. -/
theorem listingLoop_spec (unread : List DirEntry) (stage : Nat) (total : Int) (out : Bytes) :
    ∃ pre post text, unread = pre ++ post ∧
      text = out ++ entriesText total (listed responsePath pre) ∧
      ((post = [] ∧ (text.length : Int) < maxSize - 200 ∧
          listingLoop responsePath maxSize unread stage total out =
            ⟨⟨stageEnd, total + (listed responsePath pre).length, []⟩,
              (text ++ ascii "]\x7d").length, text ++ ascii "]\x7d" ++ [0]⟩) ∨
        (maxSize - 200 ≤ (text.length : Int) ∧
          listingLoop responsePath maxSize unread stage total out =
            listingPause ⟨stage + pre.length, total + (listed responsePath pre).length, post⟩
              text)) := by
  induction unread generalizing stage total out with
  | nil =>
    refine ⟨[], [], out, rfl, by simp [listed, entriesText], ?_⟩
    rw [listingLoop]
    split
    · rename_i hroom
      exact .inl ⟨rfl, hroom, by simp [listed]⟩
    · rename_i hroom
      exact .inr ⟨by omega, by simp [listed]⟩
  | cons e unread ih =>
    rw [listingLoop]
    split
    case isFalse hroom =>
      refine ⟨[], e :: unread, out, rfl, by simp [listed, entriesText], .inr ⟨by omega, ?_⟩⟩
      simp [listed]
    case isTrue hroom =>
      split
      case isTrue hshown =>
        obtain ⟨pre, post, text, hsplit, htext, hcases⟩ :=
          ih (stage + 1) (total + 1) (out ++ entryText total e)
        have hcons : listed responsePath (e :: pre) = e :: listed responsePath pre := by
          simp [listed, hshown]
        have hcount : total + 1 + ((listed responsePath pre).length : Int)
            = total + (listed responsePath (e :: pre)).length := by
          rw [hcons, List.length_cons]
          omega
        have hstage : stage + 1 + pre.length = stage + (e :: pre).length := by
          rw [List.length_cons]
          omega
        rw [hcount, hstage] at hcases
        refine ⟨e :: pre, post, text, by simp [hsplit], ?_, hcases⟩
        rw [htext, hcons, entriesText, List.append_assoc]
      case isFalse hhidden =>
        obtain ⟨pre, post, text, hsplit, htext, hcases⟩ := ih (stage + 1) total out
        have hcons : listed responsePath (e :: pre) = listed responsePath pre := by
          simp [listed, hhidden]
        have hstage : stage + 1 + pre.length = stage + (e :: pre).length := by
          rw [List.length_cons]
          omega
        rw [← hcons, hstage] at hcases
        exact ⟨e :: pre, post, text, by simp [hsplit], by rw [htext, hcons], hcases⟩

/-- Without room nothing is read. -/
theorem listingLoop_stop {out : Bytes} (hroom : ¬(out.length : Int) < maxSize - 200)
    (unread : List DirEntry) (stage : Nat) (total : Int) :
    listingLoop responsePath maxSize unread stage total out
      = listingPause ⟨stage, total, unread⟩ out := by
  cases unread <;> rw [listingLoop, if_neg hroom]

theorem listingLoop_full (hroom : maxSize ≤ 200) (unread : List DirEntry) (stage : Nat)
    (total : Int) :
    listingLoop responsePath maxSize unread stage total []
      = listingPause ⟨stage, total, unread⟩ [] :=
  listingLoop_stop (by simp; omega) unread stage total

theorem listingPause_nil (s : Listing) :
    (listingPause s []).Ends ∧ (listingPause s []).block = [] ∧
      (listingPause s []).out.length = 0 := by
  simp [listingPause, ListingCall.Ends, ListingCall.block]

/-- A call on an open folder with room: it ends the listing, or it goes on with a listed entry
behind it. -/
theorem listingLoop_call {unread : List DirEntry} {stage : Nat} {total : Int}
    (hroom : 200 < maxSize) (hstage : stage + unread.length < stageEnd)
    {k : ListingCall} (hk : k = listingLoop responsePath maxSize unread stage total []) :
    (k.Ends ∧ k.block = entriesText total (listed responsePath unread) ++ ascii "]\x7d") ∨
      (¬k.Ends ∧ ∃ pre post, unread = pre ++ post ∧ listed responsePath pre ≠ [] ∧
        k.state = ⟨stage + pre.length, total + (listed responsePath pre).length, post⟩ ∧
        k.block = entriesText total (listed responsePath pre)) := by
  obtain ⟨pre, post, text, hsplit, htext, hcases⟩ := @listingLoop_spec responsePath maxSize unread
    stage total []
  rw [List.nil_append] at htext
  rw [← hk] at hcases
  rcases hcases with ⟨rfl, -, heq⟩ | ⟨hfull, heq⟩
  · left
    rw [List.append_nil] at hsplit
    rw [heq, hsplit, ← htext]
    constructor
    · exact .inr rfl
    · change (text ++ ascii "]\x7d" ++ [0]).take (text ++ ascii "]\x7d").length = _
      exact List.take_left
  · right
    have hne : text ≠ [] := by
      rintro rfl
      simp at hfull
      omega
    have hpre : listed responsePath pre ≠ [] := by
      intro hnone
      rw [hnone] at htext
      exact hne htext
    have hlen : stage + pre.length ≠ stageEnd := by
      rw [hsplit, List.length_append] at hstage
      omega
    rw [heq, listingPause, if_neg hne, if_neg hne]
    refine ⟨?_, pre, post, hsplit, hpre, rfl, ?_⟩
    · rintro (hneg | hend)
      · simp only at hneg
        omega
      · exact hlen hend
    · change (text ++ [0]).take text.length = _
      rw [List.take_left, htext]

end Call

/-! ## Room -/

section Room

variable {responsePath : Bytes} {maxSize : Int}

theorem length_decimal_nonneg {n : Int} (h0 : 0 ≤ n) (hmax : n ≤ longMax) :
    (decimal n).length ≤ 10 := by
  rw [decimal, if_neg (by omega)]
  refine length_positional_le (by decide) (by decide) ?_
  simp only [longMax] at hmax
  omega

/-- The 200 bytes are enough for a comma, an entry and the NUL. -/
theorem length_entryObject {e : DirEntry} (he : e.Proper) : (entryObject e).length ≤ 196 := by
  obtain ⟨hmin, hmax⟩ := wrapLong_bounds e.date
  have hfolder : (decimal e.isFolder).length ≤ 11 := length_decimal_le (by
    have := he.folder_min
    have := he.folder_max
    simp only [longMin, longMax] at *
    omega)
  have hdate : (decimal (wrapLong e.date)).length ≤ 11 := length_decimal_le (by
    simp only [longMin, longMax] at *
    omega)
  have hsize := length_decimal_nonneg he.size_nonneg he.size_max
  have hname := he.name_le
  simp [entryObject, ascii]
  omega

theorem length_entryText_pos {total : Int} (htotal : 0 < total) (e : DirEntry) :
    (entryText total e).length = (entryObject e).length + 1 := by
  rw [entryText, if_neg (by omega), List.length_append, Nat.add_comm]
  rfl

theorem length_entryText_zero (e : DirEntry) :
    (entryText 0 e).length = (entryObject e).length + 21 := by
  rw [entryText, if_pos rfl, List.length_append, Nat.add_comm]
  rfl

/-- Behind the first entry the loop stays in its room. -/
theorem listingLoop_fits {unread : List DirEntry} (hproper : ∀ e ∈ unread, e.Proper)
    {stage : Nat} {total : Int} (htotal : 0 < total) {out : Bytes}
    (hout : (out.length : Int) + 1 ≤ maxSize) :
    ((listingLoop responsePath maxSize unread stage total out).out.length : Int) ≤ maxSize := by
  induction unread generalizing stage total out with
  | nil =>
    rw [listingLoop]
    split
    · simp [ascii]
      omega
    · rw [listingPause]
      split <;> simp <;> omega
  | cons e unread ih =>
    have htail : ∀ f ∈ unread, f.Proper := fun f hf => hproper f (List.mem_cons_of_mem e hf)
    rw [listingLoop]
    split
    case isFalse =>
      rw [listingPause]
      split <;> simp <;> omega
    case isTrue hroom =>
      split
      · have hentry := length_entryObject (hproper e (by simp))
        refine ih htail (by omega) ?_
        rw [List.length_append, length_entryText_pos htotal]
        omega
      · exact ih htail htotal hout

/-- What is put out stays and is closed by a NUL. -/
theorem listingLoop_length (unread : List DirEntry) (stage : Nat) (total : Int) {out : Bytes}
    (hout : out ≠ []) :
    out.length + 1 ≤ (listingLoop responsePath maxSize unread stage total out).out.length := by
  obtain ⟨pre, post, text, -, htext, hcases⟩ := @listingLoop_spec responsePath maxSize unread
    stage total out
  have hlen : out.length ≤ text.length := by
    rw [htext, List.length_append]
    omega
  rcases hcases with ⟨-, -, heq⟩ | ⟨-, heq⟩
  · rw [heq]
    simp [ascii]
    omega
  · have hne : text ≠ [] := by
      intro hnil
      rw [hnil, List.length_nil] at hlen
      exact hout (List.length_eq_zero_iff.mp (by omega))
    rw [heq, listingPause, if_neg hne, if_neg hne]
    simp
    omega

/-- The call that puts out the first entry stays in its room when the opening part, the entry
and the NUL do. -/
theorem listingLoop_first {unread : List DirEntry} (hproper : ∀ e ∈ unread, e.Proper)
    (hroom : 200 < maxSize) (stage : Nat) :
    ((listingLoop responsePath maxSize unread stage 0 []).out.length : Int) ≤ maxSize ↔
      ∀ e ∈ (listed responsePath unread).head?, 22 + ((entryObject e).length : Int) ≤ maxSize := by
  induction unread generalizing stage with
  | nil =>
    rw [listingLoop, if_pos (by simp; omega)]
    simp [listed, ascii]
    omega
  | cons e unread ih =>
    have htail : ∀ f ∈ unread, f.Proper := fun f hf => hproper f (List.mem_cons_of_mem e hf)
    rw [listingLoop, if_pos (by simp; omega), List.nil_append]
    split
    case isTrue hshown =>
      have hhead : (listed responsePath (e :: unread)).head? = some e := by simp [listed, hshown]
      have hlen := length_entryText_zero e
      rw [hhead]
      constructor
      · rintro hfits f ⟨⟩
        have hne : entryText 0 e ≠ [] := by
          intro hnil
          rw [hnil, List.length_nil] at hlen
          omega
        have hstay := @listingLoop_length responsePath maxSize unread (stage + 1) (0 + 1) _ hne
        omega
      · intro hfits
        have he := hfits e rfl
        exact listingLoop_fits htail (by decide) (by omega)
    case isFalse hhidden =>
      have hsame : listed responsePath (e :: unread) = listed responsePath unread := by
        simp [listed, hhidden]
      rw [hsame]
      exact ih htail (stage + 1)

end Room

/-! ## Runs -/

section Run

variable {responsePath : Bytes} {folder : List DirEntry}

/-- The folder is open behind its first listed entry, and the counter of the stages does not
reach the end by itself. -/
structure Midway (s : Listing) : Prop where
  opened : 0 < s.stage
  count : s.stage + s.unread.length < stageEnd
  listed : 0 < s.total
  proper : ∀ e ∈ s.unread, e.Proper

theorem readOneFileInfo_midway {s : Listing} (h : Midway s) (maxSize : Int) :
    readOneFileInfo responsePath folder s maxSize
      = listingLoop responsePath maxSize s.unread s.stage s.total [] := by
  have hopened := h.opened
  have hcount := h.count
  rw [readOneFileInfo, if_neg (by omega), if_neg (by omega)]

/-- Behind a call that goes on the folder is still open. -/
theorem Midway.next {unread pre post : List DirEntry} {stage : Nat} {total : Int}
    (hcount : stage + unread.length < stageEnd) (htotal : 0 ≤ total)
    (hproper : ∀ e ∈ unread, e.Proper) (hsplit : unread = pre ++ post)
    (hsome : Httpd.listed responsePath pre ≠ []) :
    Midway ⟨stage + pre.length, total + (Httpd.listed responsePath pre).length, post⟩ := by
  have hlisted : 0 < (Httpd.listed responsePath pre).length := List.length_pos_iff.mpr hsome
  have hpre : 0 < pre.length := by
    have := List.length_filter_le (fun e => filesListed responsePath e.name) pre
    change (Httpd.listed responsePath pre).length ≤ pre.length at this
    omega
  rw [hsplit, List.length_append] at hcount
  constructor
  · change 0 < stage + pre.length
    omega
  · change stage + pre.length + post.length < stageEnd
    omega
  · change 0 < total + ((Httpd.listed responsePath pre).length : Int)
    omega
  · intro e he
    exact hproper e (by rw [hsplit]; exact List.mem_append_right pre he)

/-- The rest of a listing: it is closed when every call has room, and cut off otherwise. -/
theorem run_midway {s : Listing} {calls : List (Int × ListingCall)}
    (hrun : ListingRun responsePath folder s calls) (h : Midway s) :
    ((∀ k ∈ calls, 200 < k.1) ∧ (∀ k ∈ calls, (k.2.out.length : Int) ≤ k.1) ∧
        listingText calls
          = entriesText s.total (listed responsePath s.unread) ++ ascii "]\x7d") ∨
      (¬(∀ k ∈ calls, 200 < k.1) ∧ ∃ pre, pre <+: s.unread ∧
        listingText calls = entriesText s.total (listed responsePath pre)) := by
  induction hrun with
  | @last s maxSize hends =>
    have heq := @readOneFileInfo_midway responsePath folder s h maxSize
    rw [heq] at hends ⊢
    by_cases hroom : 200 < maxSize
    · rcases listingLoop_call hroom h.count rfl with ⟨-, hblock⟩ | ⟨hgoes, -⟩
      · have hfits := @listingLoop_fits responsePath maxSize s.unread h.proper s.stage s.total
          h.listed [] (by simp; omega)
        exact .inl ⟨by simpa using hroom, by simpa using hfits, by simpa [listingText] using hblock⟩
      · exact absurd hends hgoes
    · right
      rw [listingLoop_full (by omega)]
      refine ⟨by simpa using hroom, [], List.nil_prefix, ?_⟩
      simp [listingText, (listingPause_nil _).2.1, listed, entriesText]
  | @more s maxSize calls hgoes hrest ih =>
    have heq := @readOneFileInfo_midway responsePath folder s h maxSize
    rw [heq] at hgoes ih ⊢
    by_cases hroom : 200 < maxSize
    · rcases listingLoop_call hroom h.count rfl with
        ⟨hends, -⟩ | ⟨-, pre, post, hsplit, hsome, hstate, hblock⟩
      · exact absurd hends hgoes
      · have hfits := @listingLoop_fits responsePath maxSize s.unread h.proper s.stage s.total
          h.listed [] (by simp; omega)
        have hnext := Midway.next h.count (le_of_lt h.listed) h.proper hsplit hsome
        rw [hstate] at ih
        rcases ih hnext with ⟨hrooms, hall, htext⟩ | ⟨hshort, pre', hpre', htext⟩
        · left
          refine ⟨by simpa [hroom] using hrooms, by simpa using ⟨hfits, fun a k hk => hall (a, k) hk⟩, ?_⟩
          rw [listingText, List.flatMap_cons, ← listingText, htext, hblock, hsplit, listed_append,
            entriesText_append, List.append_assoc]
        · right
          refine ⟨by simpa [hroom] using hshort, pre ++ pre', ?_, ?_⟩
          · rw [hsplit]
            exact List.prefix_append_right_inj pre |>.mpr hpre'
          · rw [listingText, List.flatMap_cons, ← listingText, htext, hblock, listed_append,
              entriesText_append]
    · rw [listingLoop_full (by omega)] at hgoes
      exact absurd (listingPause_nil _).1 hgoes

/-- Whatever room is given, the listing ends. -/
theorem run_midway_ends {s : Listing} (h : Midway s) (rooms : Nat → Int) :
    ∃ calls n, ListingRun responsePath folder s calls ∧
      calls.map Prod.fst = (List.range n).map rooms := by
  obtain ⟨bound, hbound⟩ : ∃ bound, s.unread.length < bound := ⟨_, Nat.lt_succ_self _⟩
  induction bound generalizing s rooms with
  | zero => omega
  | succ bound ih =>
    have heq := @readOneFileInfo_midway responsePath folder s h (rooms 0)
    by_cases hends : (readOneFileInfo responsePath folder s (rooms 0)).Ends
    · exact ⟨_, 1, .last hends, rfl⟩
    · have hgoes := hends
      rw [heq] at hgoes
      by_cases hroom : 200 < rooms 0
      · rcases listingLoop_call hroom h.count rfl with
          ⟨hend, -⟩ | ⟨-, pre, post, hsplit, hsome, hstate, -⟩
        · exact absurd hend hgoes
        · have hnext := Midway.next h.count (le_of_lt h.listed) h.proper hsplit hsome
          rw [← hstate, ← heq] at hnext
          have hless : (readOneFileInfo responsePath folder s (rooms 0)).state.unread.length
              < bound := by
            have hpre : pre ≠ [] := by
              rintro rfl
              exact hsome rfl
            have := List.length_pos_iff.mpr hpre
            rw [heq, hstate]
            rw [hsplit, List.length_append] at hbound
            change post.length < bound
            omega
          obtain ⟨calls, n, hrun, hcalls⟩ := ih hnext (fun k => rooms (k + 1)) hless
          refine ⟨_, n + 1, .more hends hrun, ?_⟩
          rw [List.map_cons, hcalls, List.range_succ_eq_map, List.map_cons, List.map_map]
          rfl
      · rw [listingLoop_full (by omega)] at hgoes
        exact absurd (listingPause_nil _).1 hgoes

/-- The first call opens the folder if it has room. -/
theorem readOneFileInfo_start (hfolder : folder ≠ []) (maxSize : Int) :
    readOneFileInfo responsePath folder .start maxSize = if 200 < maxSize
      then listingLoop responsePath maxSize folder 0 0 [] else listingPause .start [] := by
  rw [readOneFileInfo, if_neg (by decide), if_pos (show Listing.start.stage = 0 from rfl)]
  by_cases hroom : 200 < maxSize
  · rw [if_pos (by omega), if_neg hfolder, if_pos hroom]
    rfl
  · rw [if_neg (by omega), if_neg hroom]

theorem readOneFileInfo_empty (maxSize : Int) :
    readOneFileInfo responsePath [] .start maxSize = if 200 < maxSize
      then ⟨⟨stageEnd, 0, []⟩, 23, emptyListing ++ [0]⟩ else listingPause .start [] := by
  rw [readOneFileInfo, if_neg (by decide), if_pos (show Listing.start.stage = 0 from rfl)]
  by_cases hroom : 200 < maxSize
  · rw [if_pos (by omega), if_pos rfl, if_pos hroom]
    rfl
  · rw [if_neg (by omega), if_neg hroom]

/-- The first call of a folder ends the listing when it is empty or there is no room. -/
theorem run_empty {calls : List (Int × ListingCall)}
    (hrun : ListingRun responsePath [] .start calls) :
    ((∀ k ∈ calls, 200 < k.1) ∧ (∀ k ∈ calls, (k.2.out.length : Int) ≤ k.1) ∧
        listingText calls = emptyListing) ∨
      (¬(∀ k ∈ calls, 200 < k.1) ∧ listingText calls = []) := by
  cases hrun with
  | @last _ maxSize hends =>
    rw [readOneFileInfo_empty]
    by_cases hroom : 200 < maxSize
    · left
      rw [if_pos hroom]
      have hlen : (emptyListing ++ [0]).length = 24 := rfl
      refine ⟨by simpa using hroom, ?_, rfl⟩
      rintro k hk
      obtain rfl := List.mem_singleton.mp hk
      rw [hlen]
      change (24 : Int) ≤ maxSize
      omega
    · right
      rw [if_neg hroom]
      exact ⟨by simpa using hroom, rfl⟩
  | @more _ maxSize calls hgoes hrest =>
    refine absurd ?_ hgoes
    rw [readOneFileInfo_empty]
    split
    · exact .inr rfl
    · exact (listingPause_nil _).1

/-- The listing of a folder with an entry. -/
theorem run_start (hfolder : folder ≠ []) (hcount : folder.length < stageEnd)
    (hproper : ∀ e ∈ folder, e.Proper) {calls : List (Int × ListingCall)}
    (hrun : ListingRun responsePath folder .start calls) :
    ((∀ k ∈ calls, 200 < k.1) ∧
        listingText calls = entriesText 0 (listed responsePath folder) ++ ascii "]\x7d" ∧
        ((∀ k ∈ calls, (k.2.out.length : Int) ≤ k.1) ↔
          ∀ e ∈ (listed responsePath folder).head?, ∀ k ∈ calls.head?,
            22 + ((entryObject e).length : Int) ≤ k.1)) ∨
      (¬(∀ k ∈ calls, 200 < k.1) ∧ ∃ pre, pre <+: folder ∧
        listingText calls = entriesText 0 (listed responsePath pre)) := by
  cases hrun with
  | @last _ maxSize hends =>
    rw [readOneFileInfo_start hfolder] at hends ⊢
    by_cases hroom : 200 < maxSize
    · rw [if_pos hroom] at hends ⊢
      rcases listingLoop_call hroom (show 0 + folder.length < stageEnd by omega) rfl with
        ⟨-, hblock⟩ | ⟨hgoes, -⟩
      · left
        refine ⟨by simpa using hroom, by simpa [listingText] using hblock, ?_⟩
        simpa using @listingLoop_first responsePath maxSize folder hproper hroom 0
      · exact absurd hends hgoes
    · right
      rw [if_neg hroom]
      exact ⟨by simpa using hroom, [], List.nil_prefix, rfl⟩
  | @more _ maxSize calls hgoes hrest =>
    rw [readOneFileInfo_start hfolder] at hgoes hrest ⊢
    by_cases hroom : 200 < maxSize
    · rw [if_pos hroom] at hgoes hrest ⊢
      rcases listingLoop_call hroom (show 0 + folder.length < stageEnd by omega) rfl with
        ⟨hends, -⟩ | ⟨-, pre, post, hsplit, hsome, hstate, hblock⟩
      · exact absurd hends hgoes
      · have hfirst := @listingLoop_first responsePath maxSize folder hproper hroom 0
        have hnext := Midway.next (show 0 + folder.length < stageEnd by omega) (le_refl 0)
          hproper hsplit hsome
        rw [hstate] at hrest
        rcases run_midway hrest hnext with ⟨hrooms, hall, htext⟩ | ⟨hshort, pre', hpre', htext⟩
        · left
          refine ⟨by simpa [hroom] using hrooms, ?_, ?_⟩
          · rw [listingText, List.flatMap_cons, ← listingText, htext, hblock]
            conv_rhs => rw [hsplit, listed_append, entriesText_append, List.append_assoc]
          · have hrest : ∀ k ∈ calls, (k.2.out.length : Int) ≤ k.1 := hall
            constructor
            · rintro hfits e he k ⟨⟩
              exact hfirst.mp (hfits _ (List.mem_cons_self ..)) e he
            · rintro hfits k hk
              rcases List.mem_cons.mp hk with rfl | hk
              · exact hfirst.mpr fun e he => hfits e he _ rfl
              · exact hrest k hk
        · right
          refine ⟨by simpa [hroom] using hshort, pre ++ pre', ?_, ?_⟩
          · rw [hsplit]
            exact List.prefix_append_right_inj pre |>.mpr hpre'
          · rw [listingText, List.flatMap_cons, ← listingText, htext, hblock, listed_append,
              entriesText_append]
    · rw [if_neg hroom] at hgoes
      exact absurd (listingPause_nil _).1 hgoes

/-- Whatever room is given, the listing of a folder ends. -/
theorem run_start_ends (hcount : folder.length < stageEnd) (hproper : ∀ e ∈ folder, e.Proper)
    (rooms : Nat → Int) : ∃ calls n, ListingRun responsePath folder .start calls ∧
      calls.map Prod.fst = (List.range n).map rooms := by
  by_cases hends : (readOneFileInfo responsePath folder .start (rooms 0)).Ends
  · exact ⟨_, 1, .last hends, rfl⟩
  · have hfolder : folder ≠ [] := by
      rintro rfl
      refine hends ?_
      rw [readOneFileInfo_empty]
      split
      · exact .inr rfl
      · exact (listingPause_nil _).1
    have hgoes := hends
    have heq := @readOneFileInfo_start responsePath folder hfolder (rooms 0)
    rw [heq] at hgoes
    by_cases hroom : 200 < rooms 0
    · rw [if_pos hroom] at hgoes heq
      rcases listingLoop_call hroom (show 0 + folder.length < stageEnd by omega) rfl with
        ⟨hend, -⟩ | ⟨-, pre, post, hsplit, hsome, hstate, -⟩
      · exact absurd hend hgoes
      · have hnext := Midway.next (show 0 + folder.length < stageEnd by omega) (le_refl 0)
          hproper hsplit hsome
        rw [← hstate, ← heq] at hnext
        obtain ⟨calls, n, hrun, hcalls⟩ := @run_midway_ends responsePath folder _ hnext
          fun k => rooms (k + 1)
        refine ⟨_, n + 1, .more hends hrun, ?_⟩
        rw [List.map_cons, hcalls, List.range_succ_eq_map, List.map_cons, List.map_map]
        rfl
    · rw [if_neg hroom] at hgoes
      exact absurd (listingPause_nil _).1 hgoes

end Run

/-! ## The fake files -/

/-- What the directory functions tell of a file. -/
def fileEntryOf (f : FileInfo) : DirEntry := ⟨0, f.name, f.nSize, f.tLastModified⟩

/-- The folder of this build. -/
def fakeFolder : List DirEntry := fakeFiles.map fileEntryOf

/-- The text of a fake file is that of its entry. -/
theorem filesItem_eq (total : Int) {f : FileInfo} (hf : f ∈ fakeFiles) :
    filesItem total f = entryText total (fileEntryOf f) := by
  have hdates : fakeFiles.all (fun f => decide (f.tLastModified < 2147483648)) = true := by decide
  have hdate := of_decide_eq_true (List.all_eq_true.mp hdates f hf)
  have hlong : wrapLong (f.tLastModified : Int) = f.tLastModified :=
    wrapLong_of_fits (by simp only [longMin]; omega) (by simp only [longMax]; omega)
  have hnat : ∀ n : Nat, decimal (n : Int) = decimalNat n := by
    intro n
    rw [decimal, if_neg (by omega), Int.natAbs_natCast]
  have hzero : decimal 0 = [48] := by decide
  simp only [filesItem, entryText, entryObject, fileEntryOf, hlong, hnat, hzero]
  split <;> simp [listingHead, ascii]

/-- The context of a listing of the fake files. -/
structure ListingAt (c : Call) (s : Listing) : Prop where
  stage : c.r.dwOperStage = s.stage
  total : c.r.dwTotal = s.total
  mem : c.r.mem.length = memSize
  slots : c.w.fs.opened.length = maxFiles
  handle : 0 < s.stage → s.stage ≠ stageEnd → ∃ i, i < maxFiles ∧ c.r.ssi.fp = handleAddr i ∧
    s.unread = fakeFolder.drop ((c.w.fs.handle i).lReadPos + 1)

/-- A read of the fake files does what the call over the folder does. -/
structure SameCall (k : Content) (l : ListingCall) : Prop where
  size : k.size = l.size
  out : k.out = l.out
  state : ListingAt k.call l.state

/-- The entries behind a position. -/
theorem fakeFolder_drop (pos : Nat) : fakeFolder.drop pos = match fakeFiles[pos]? with
    | none => []
    | some f => fileEntryOf f :: fakeFolder.drop (pos + 1) := by
  by_cases hpos : pos < fakeFiles.length
  · have hpos' : pos < fakeFolder.length := hpos
    rw [List.getElem?_eq_getElem hpos, List.drop_eq_getElem_cons hpos']
    simp [fakeFolder]
  · rw [List.getElem?_eq_none (by omega)]
    exact List.drop_eq_nil_of_le (by rw [fakeFolder, List.length_map]; omega)

theorem webReaddir_slot {fs : FileSystem} {i : Nat} (hi : i < maxFiles) :
    fs.webReaddir (handleAddr i) = some (fs.setHandle i
      ⟨some (fakeFiles[(fs.handle i).lReadPos + 1]?.getD ⟨[], 0, 0, 0⟩), (fs.handle i).lReadPos + 1⟩,
      fakeFiles[(fs.handle i).lReadPos + 1]?) := by
  rw [FileSystem.webReaddir, filePtr_handleAddr hi]

theorem filesLoop_listing {maxSize : Int} {fuel i : Nat} {c : Call} {out : Bytes}
    (hi : i < maxFiles) (hmem : c.r.mem.length = memSize)
    (hslots : c.w.fs.opened.length = maxFiles) (hfp : c.r.ssi.fp = handleAddr i)
    (hopened : 0 < c.r.dwOperStage) {pos : Nat} (hpos : (c.w.fs.handle i).lReadPos = pos)
    (hbound : c.r.dwOperStage + (fakeFiles.length - (pos + 1)) < stageEnd)
    (hfuel : fakeFiles.length - (pos + 1) < fuel) :
    SameCall (filesLoop maxSize fuel c (handleAddr i) out)
      (listingLoop c.r.responsePath maxSize (fakeFolder.drop (pos + 1)) c.r.dwOperStage
        c.r.dwTotal out) := by
  induction fuel generalizing c out pos with
  | zero => omega
  | succ fuel ih =>
    have hfirst : ¬c.r.dwOperStage = 0 := by omega
    have hnext : (c.r.dwOperStage + 1) % 4294967296 = c.r.dwOperStage + 1 :=
      Nat.mod_eq_of_lt (by rw [stageEnd] at hbound; omega)
    have hdrop := fakeFolder_drop (pos + 1)
    rw [filesLoop]
    by_cases hroom : (out.length : Int) < maxSize - 200
    · rw [if_pos hroom]
      simp only [hfirst, if_false, false_and]
      rw [webReaddir_slot hi, hpos]
      cases hfile : fakeFiles[pos + 1]? with
      | none =>
        rw [hfile] at hdrop
        rw [hdrop, listingLoop, if_pos hroom]
        constructor
        · rfl
        · rfl
        · constructor
          · rfl
          · rfl
          · change (store c.r.mem _ _).length = memSize
            rw [length_store, hmem]
          · simp only [FileSystem.webFclose, filePtr_handleAddr hi, Option.getD_some,
              FileSystem.setHandle, List.length_set, hslots]
          · intro _ hend
            exact absurd rfl hend
      | some f =>
        have hmem' : f ∈ fakeFiles := List.mem_of_getElem? hfile
        have hlt : pos + 1 < fakeFiles.length := by
          by_contra hout
          rw [List.getElem?_eq_none (by omega)] at hfile
          cases hfile
        have hhandle : ((c.w.fs.setHandle i ⟨some ((some f).getD ⟨[], 0, 0, 0⟩), pos + 1⟩).handle
            i).lReadPos = pos + 1 := by
          rw [FileSystem.handle_setHandle (by rw [hslots]; exact hi)]
        rw [hfile] at hdrop
        rw [hdrop, listingLoop, if_pos hroom]
        change SameCall (if filesListed c.r.responsePath f.name then _ else _)
          (if filesListed c.r.responsePath f.name then _ else _)
        split
        · rw [filesItem_eq _ hmem', ← hnext]
          refine ih (c := ⟨{ c.w with fs := c.w.fs.setHandle i _ },
            { c.r.nextStage with dwTotal := c.r.dwTotal + 1 }⟩) hmem ?_ hfp ?_ hhandle ?_ (by omega)
          · simp only [FileSystem.setHandle, List.length_set, hslots]
          · change 0 < (c.r.dwOperStage + 1) % 4294967296
            omega
          · change (c.r.dwOperStage + 1) % 4294967296 + _ < stageEnd
            omega
        · rw [← hnext]
          refine ih (c := ⟨{ c.w with fs := c.w.fs.setHandle i _ }, c.r.nextStage⟩) hmem ?_ hfp ?_
            hhandle ?_ (by omega)
          · simp only [FileSystem.setHandle, List.length_set, hslots]
          · change 0 < (c.r.dwOperStage + 1) % 4294967296
            omega
          · change (c.r.dwOperStage + 1) % 4294967296 + _ < stageEnd
            omega
    · rw [if_neg hroom, listingLoop_stop hroom]
      exact ⟨rfl, rfl, rfl, rfl, hmem, hslots, fun _ _ => ⟨i, hi, hfp, by rw [hpos]; rfl⟩⟩

/-- `Files_ReadOneFileInfo` of this build is the one over the fake folder, with a slot free to
open it. -/
theorem filesReadOneFileInfo_listing {h : Request} {c : Call} {s : Listing}
    (hget : h.requestMethod = .get) (hat : ListingAt c s)
    (hbound : 0 < s.stage → s.stage ≠ stageEnd → s.stage + s.unread.length < stageEnd)
    (hfree : ∃ x ∈ c.w.fs.opened, x.pFileInfo = none) (maxSize : Int) :
    SameCall (filesReadOneFileInfo h c maxSize)
      (readOneFileInfo c.r.responsePath fakeFolder s maxSize) := by
  have hstage := hat.stage
  have htotal := hat.total
  have hmem := hat.mem
  have hslots := hat.slots
  rw [filesReadOneFileInfo, if_pos hget, readOneFileInfo, hstage]
  by_cases hend : s.stage = stageEnd
  · rw [if_pos hend, if_pos hend]
    obtain ⟨hstage', htotal', hmem', hslots'⟩ : (webCloseFile c).r.dwOperStage = c.r.dwOperStage ∧
        (webCloseFile c).r.dwTotal = c.r.dwTotal ∧
        (webCloseFile c).r.mem.length = c.r.mem.length ∧
        (webCloseFile c).w.fs.opened.length = c.w.fs.opened.length := by
      rw [webCloseFile]
      dsimp only
      split
      · split
        · rename_i fs hclose
          refine ⟨rfl, rfl, length_store .., ?_⟩
          rw [FileSystem.webFclose] at hclose
          split at hclose
          · rw [Option.some.inj hclose]
          · cases hclose
          · rw [← Option.some.inj hclose]
            exact List.length_set ..
        · exact ⟨rfl, rfl, rfl, rfl⟩
      · exact ⟨rfl, rfl, rfl, rfl⟩
    exact ⟨rfl, rfl, hstage'.trans hstage, htotal'.trans htotal, hmem'.trans hmem,
      hslots'.trans hslots, fun _ hno => absurd hend hno⟩
  rw [if_neg hend, if_neg hend]
  by_cases hzero : s.stage = 0
  · rw [if_pos hzero]
    by_cases hroom : 0 < maxSize - 200
    · have hfolder : fakeFolder ≠ [] := by decide
      obtain ⟨i, hi, halloc⟩ := FileSystem.allocate_free hfree (fakeFile 1 0)
      have hi' : i < maxFiles := by rw [← hslots]; exact hi
      have hdrop : fakeFolder = fileEntryOf (fakeFile 1 0) :: fakeFolder.drop 1 := rfl
      rw [if_pos hroom, if_neg hfolder, hdrop, listingLoop, if_pos (by simpa using hroom),
        filesLoop, if_pos (by simpa using hroom)]
      have hzero' : c.r.dwOperStage = 0 := hstage.trans hzero
      simp only [hzero', if_true, true_and, FileSystem.webFirstdir, halloc,
        if_neg (FileSystem.handleAddr_ne_zero i), List.nil_append]
      have hmem' : c.r.nextStage.mem.length = memSize := hmem
      have hfits : SSIContext.Fits { c.r.nextStage.ssi with fp := handleAddr i } := by
        have hall := ssi_fits hmem'
        have haddr : handleAddr i < 4294967296 := by
          simp only [handleAddr, handleBase, handleSize, maxFiles] at hi' ⊢
          omega
        exact { hall with fp := haddr }
      generalize hr : c.r.nextStage.setSsi { c.r.nextStage.ssi with fp := handleAddr i } = r
      have hrstage : r.dwOperStage = 0 + 1 := by
        rw [← hr]
        change (c.r.dwOperStage + 1) % 4294967296 = _
        rw [hzero']
      have hrtotal : r.dwTotal = s.total := by
        rw [← hr]
        exact htotal
      have hrpath : r.responsePath = c.r.responsePath := by
        rw [← hr]
        rfl
      have hrmem : r.mem.length = memSize := by
        rw [← hr]
        exact (length_store ..).trans hmem'
      have hrfp : r.ssi.fp = handleAddr i := by
        rw [← hr, ssi_setSsi hmem' hfits]
      have hslots' : (c.w.fs.setHandle i ⟨some (fakeFile 1 0), 0⟩).opened.length = maxFiles :=
        (List.length_set ..).trans hslots
      have hhandle : ((c.w.fs.setHandle i ⟨some (fakeFile 1 0), 0⟩).handle i).lReadPos = 0 := by
        rw [FileSystem.handle_setHandle hi]
      have hshort : fakeFiles.length - (0 + 1) < fakeFiles.length := by decide
      rw [← hrpath]
      change SameCall _ (if filesListed r.responsePath (fakeFile 1 0).name then _ else _)
      split
      · rw [filesItem_eq _ (by decide), hrtotal, ← hrstage]
        exact filesLoop_listing (c := ⟨{ c.w with fs := c.w.fs.setHandle i _ },
          { r with dwTotal := s.total + 1 }⟩) hi' hrmem hslots' hrfp (by change 0 < r.dwOperStage; omega)
          hhandle (by change r.dwOperStage + _ < _; rw [hrstage]; decide) hshort
      · rw [← hrstage, ← hrtotal]
        exact filesLoop_listing (c := ⟨{ c.w with fs := c.w.fs.setHandle i _ }, r⟩) hi' hrmem
          hslots' hrfp (by change 0 < r.dwOperStage; omega) hhandle
          (by change r.dwOperStage + _ < _; rw [hrstage]; decide) hshort
    · rw [if_neg hroom, filesLoop, if_neg (by simpa using hroom)]
      exact ⟨rfl, rfl, hstage, htotal, hmem, hslots, hat.handle⟩
  · obtain ⟨i, hi, hfp, hunread⟩ := hat.handle (by omega) hend
    rw [if_neg hzero, ← hstage, ← htotal, hunread, hfp]
    have hcount := hbound (by omega) hend
    rw [hunread, List.length_drop] at hcount
    exact filesLoop_listing hi hmem hslots hfp (by omega) rfl (by rw [hstage]; exact hcount)
      (by omega)

/-! ## What is listed -/

theorem entryValue_printed {e : DirEntry} (he : e.Proper) :
    entryValue (printed e) = entryValue e ↔ e.date ≤ longMax := by
  have hmax := (wrapLong_bounds e.date).2
  have h0 := he.date_nonneg
  constructor
  · intro heq
    have hdate : wrapLong e.date = e.date := by simpa [entryValue, printed] using heq
    omega
  · intro hle
    have hfits : wrapLong e.date = e.date := wrapLong_of_fits (by simp only [longMin]; omega) hle
    rw [printed, hfits]

/-- The closed listing of at least one entry lists what it should when the dates fit. -/
theorem lists_closed {e : DirEntry} {es : List DirEntry} (hes : ∀ f ∈ e :: es, f.Proper) :
    Lists (entriesText 0 (e :: es) ++ ascii "]\x7d") (e :: es) ↔
      ∀ f ∈ e :: es, f.date ≤ longMax := by
  have hvalues : ((e :: es).map fun f => entryValue (printed f)) = (e :: es).map entryValue ↔
      ∀ f ∈ e :: es, f.date ≤ longMax := by
    rw [List.map_inj_left]
    exact forall₂_congr fun f hf => entryValue_printed (hes f hf)
  rw [← hvalues, Lists, parse_closed hes]
  constructor
  · rintro ⟨fields, hfields, hdata⟩
    obtain rfl := Json.Value.obj.inj (Option.some.inj hfields)
    simpa [ascii, List.lookup_cons] using hdata
  · intro heq
    rw [heq]
    exact ⟨_, rfl, rfl⟩

/-- Whatever room its calls are given, a listing ends; and every call stays in its room and the
blocks denote the entries that are not ignored exactly if every call has more than 200 bytes and
the folder is empty, or has an entry that is not ignored, the first of them fits behind the opening
part, and the dates are those of a `long`. -/
theorem files_listing {responsePath : Bytes} {folder : List DirEntry}
    (hproper : ∀ e ∈ folder, e.Proper) (hcount : folder.length < 2147483648) :
    (∀ rooms : Nat → Int, ∃ calls n, ListingRun responsePath folder .start calls ∧
      calls.map Prod.fst = (List.range n).map rooms) ∧
    ∀ calls, ListingRun responsePath folder .start calls →
      (((∀ k ∈ calls, (k.2.out.length : Int) ≤ k.1) ∧
          Lists (listingText calls) (listed responsePath folder)) ↔
        ((∀ k ∈ calls, 200 < k.1) ∧
          (folder = [] ∨ (listed responsePath folder ≠ [] ∧
            (∀ e ∈ (listed responsePath folder).head?, ∀ k ∈ calls.head?,
              22 + ((entryObject e).length : Int) ≤ k.1) ∧
            ∀ e ∈ listed responsePath folder, e.date ≤ longMax)))) := by
  have hstage : folder.length < stageEnd := lt_trans hcount (by decide)
  refine ⟨run_start_ends hstage hproper, fun calls hrun => ?_⟩
  have hpropers : ∀ {es : List DirEntry}, es ⊆ folder → ∀ e ∈ listed responsePath es, e.Proper :=
    fun hes e he => hproper e (hes (List.mem_of_mem_filter he))
  by_cases hempty : folder = []
  · subst hempty
    rcases run_empty hrun with ⟨hrooms, hfits, htext⟩ | ⟨hshort, htext⟩
    · rw [htext]
      exact iff_of_true ⟨hfits, _, rfl, rfl⟩ ⟨hrooms, .inl rfl⟩
    · rw [htext]
      refine iff_of_false ?_ fun h => hshort h.1
      rintro ⟨-, fields, hfields, -⟩
      cases hfields
  · rcases run_start hempty hstage hproper hrun with
      ⟨hrooms, htext, hfits⟩ | ⟨hshort, pre, hpre, htext⟩
    · rw [htext, hfits]
      have hlists := hpropers (List.Subset.refl folder)
      cases hlisted : listed responsePath folder with
      | nil =>
        refine iff_of_false ?_ ?_
        · rintro ⟨-, fields, hfields, -⟩
          cases hfields
        · rintro ⟨-, hnone | ⟨hne, -⟩⟩
          · exact hempty hnone
          · exact hne rfl
      | cons e es =>
        rw [hlisted] at hlists
        rw [lists_closed hlists]
        constructor
        · rintro ⟨hroom, hdates⟩
          exact ⟨hrooms, .inr ⟨List.cons_ne_nil e es, hroom, hdates⟩⟩
        · rintro ⟨-, hnone | ⟨-, hroom, hdates⟩⟩
          · exact absurd hnone hempty
          · exact ⟨hroom, hdates⟩
    · rw [htext]
      refine iff_of_false ?_ fun h => hshort h.1
      rintro ⟨-, fields, hfields, -⟩
      rw [parse_cut (hpropers hpre.subset)] at hfields
      cases hfields

/-- An entry of a folder that holds itself only. -/
def dotEntry : DirEntry := ⟨1, ascii ".", 0, 0⟩

example : ∀ e ∈ [dotEntry], e.Proper := by decide +kernel

/-- Its listing is one call, and what it returns is not JSON. -/
theorem dot_listing :
    ListingRun [] [dotEntry] .start [(244, readOneFileInfo [] [dotEntry] .start 244)] ∧
    ¬Lists (listingText [(244, readOneFileInfo [] [dotEntry] .start 244)]) (listed [] [dotEntry]) := by
  constructor
  · exact .last (.inr rfl)
  · rintro ⟨fields, hfields, -⟩
    cases hfields

/-- A folder of itself and two files: each file fills a call, and a third one ends the folder. -/
def webFolder : List DirEntry :=
  [dotEntry, ⟨0, ascii "a.txt", 5, 7⟩, ⟨0, ascii "b.css", 30, 1443770880⟩]

def webFolderCalls : List (Int × ListingCall) :=
  let first := readOneFileInfo [] webFolder .start 244
  let second := readOneFileInfo [] webFolder first.state 244
  [(244, first), (244, second), (244, readOneFileInfo [] webFolder second.state 244)]

theorem webFolderCalls_run : ListingRun [] webFolder .start webFolderCalls := by
  refine .more ?_ (.more ?_ (.last (.inr ?_)))
  · rw [ListingCall.Ends]
    decide +kernel
  · rw [ListingCall.Ends]
    decide +kernel
  · decide +kernel

theorem files_listing_webFolder :
    (∀ k ∈ webFolderCalls, (k.2.out.length : Int) ≤ k.1) ∧
      Lists (listingText webFolderCalls) webFolder.tail := by
  have hlisted : listed [] webFolder = webFolder.tail := by decide +kernel
  have hproper : ∀ e ∈ webFolder, e.Proper := by decide +kernel
  rw [← hlisted]
  refine ((files_listing hproper (by decide +kernel)).2 _ webFolderCalls_run).mpr ⟨?_, .inr ⟨?_, ?_, ?_⟩⟩
  · simp [webFolderCalls]
  · rw [hlisted]
    decide
  · rw [hlisted]
    rintro e ⟨⟩ k ⟨⟩
    decide
  · rw [hlisted]
    decide

end Httpd
