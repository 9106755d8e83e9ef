import FunctionTrees.Proofs.Json.Number
import FunctionTrees.Proofs.Json.Text

/-!
# Formats read what they write

* `Format.Reads format value` : the value is read back from where it is written; `decode_of_reads`;
* `reads_text`, `reads_bool`, `reads_key`, `reads_word32`, `reads_word64`, `reads_int64` : texts, truth values and
  numbers are;
* `Reads.equiv`, `reads_checked`, `reads_none`, `Reads.optional`, `reads_listAs`, `reads_mapOfKeys` : and so is what is
  made of values that are; `reads_optional`, `reads_elements` : be it by other texts than their own;
* `decode_refused` : a value that its check refuses is not read;
* `decode_eq_ok_iff`, `decode_equiv_eq_ok`, `decode_checked_eq_ok_iff` : what whole texts are decoded as.
-/

set_option autoImplicit false

namespace FunctionTrees.Json

/-! ## By the first character -/

namespace Reader

variable {α : Type}

/-- A reader that is placed does what it would do otherwise, but for the place of a fault. -/
theorem run_placed_congr {reader reader' : Reader α} {chars : List Char} (h : reader.run chars = reader'.run chars) :
    (placed reader).run chars = (placed reader').run chars := by
  simp only [placed, h]

/-- What is read as a whole is read by its first character. -/
theorem run_whole (expected : String) (choose : Char → Option (Reader α)) {c : Char} (hblank : isBlank c = false)
    (text : List Char) : (whole expected choose).run (c :: text) =
      (placed (match choose c with
        | some reader => reader
        | none => mismatch expected)).run (c :: text) :=
  run_placed_congr (run_bind_next hblank text _)

theorem takes_whole {expected : String} {choose : Char → Option (Reader α)} {reader : Reader α} {c : Char}
    {text : List Char} {value : α} (hstarts : StartsValue c) (hchoose : choose c = some reader)
    (h : reader.Takes (c :: text) value) : (whole expected choose).Takes (c :: text) value := by
  intro rest hrest
  rw [List.cons_append, run_whole expected choose hstarts.not_blank]
  simp only [hchoose]
  exact run_placed (h rest hrest)

/-- What is enclosed is taken up to the closing bracket, and then the bracket. -/
theorem takes_enclosed {body : Reader α} {close : Reader Unit} {text : List Char} {value : α} {bracket : Char}
    (h : ∀ rest, body.run (text ++ bracket :: rest) = .done value (bracket :: rest))
    (hclose : ∀ rest, close.run (bracket :: rest) = .done () rest) :
    (enclosed body close).Takes (text ++ [bracket]) value := by
  intro rest _
  rw [List.append_assoc]
  exact run_enclosed (h rest) (hclose rest)

theorem takes_object {σ : Type} {entry : σ → Reader σ} {state state' : σ} {texts : List (List Char)}
    {complete : σ → Reader α} {value : α} (h : Enters entry state texts state')
    (hcomplete : ∀ rest, (complete state').run rest = .done value rest) :
    (enclosed (do pass; let found ← entries entry state; complete found) closeObject).Takes
      ('\x7b' :: (Format.commas texts ++ ['\x7d'])) value := by
  have hbody : ∀ rest, (do pass; let found ← entries entry state; complete found).run
      ('\x7b' :: Format.commas texts ++ '\x7d' :: rest) = .done value ('\x7d' :: rest) := by
    intro rest
    rw [List.cons_append, run_bind_pass, List.tail_cons, run_bind_done (run_entries h rest), hcomplete]
  exact takes_enclosed hbody run_closeObject

end Reader

namespace Format

open Reader (Takes takes_whole takes_enclosed takes_object)

variable {α β : Type} {format : Format α} {value : α}

/-- The value is read back from where it is written. -/
def Reads (format : Format α) (value : α) : Prop := format.reader.Reads (format.write value) value

theorem decode_of_reads {text : List Char} (h : format.reader.Reads text value) :
    format.decode (String.ofList text) = .ok value := by
  have hrun := h.takes [] bounded_nil
  rw [List.append_nil] at hrun
  rw [decode, Reader.ofText, String.toList_ofList, Reader.run_bind_done hrun]
  rfl

/-! ## Whole texts -/

/-- What is decoded has been read to the end, but for blanks. -/
theorem decode_eq_ok_iff {text : String} : format.decode text = .ok value ↔
    ∃ left, format.reader.run text.toList = .done value left ∧ left.dropWhile Reader.isBlank = [] := by
  unfold decode Reader.ofText
  cases hrun : format.reader.run text.toList with
  | stop fault left =>
    rw [Reader.run_bind_stop hrun]
    simp
  | done found left =>
    rw [Reader.run_bind_done hrun]
    cases hleft : left.dropWhile Reader.isBlank with
    | cons c more =>
      have hnext : Reader.next.run left = .done (some c) (c :: more) := by simp [Reader.next, hleft]
      have hfinish : Reader.finish.run left = .stop ⟨.malformed .trailingText, some ⟨c :: more, 1⟩⟩ (c :: more) := by
        rw [Reader.finish, Reader.run_bind_done hnext]
        rfl
      rw [Reader.run_bind_stop hfinish]
      refine ⟨fun hnone => (by cases hnone), ?_⟩
      rintro ⟨left', hsame, hnone⟩
      cases hsame
      rw [hleft] at hnone
      cases hnone
    | nil =>
      have hnext : Reader.next.run left = .done none [] := by simp [Reader.next, hleft]
      have hfinish : Reader.finish.run left = .done () [] := by
        rw [Reader.finish, Reader.run_bind_done hnext]
        rfl
      rw [Reader.run_bind_done hfinish]
      constructor
      · rintro ⟨⟩
        exact ⟨left, rfl, hleft⟩
      · rintro ⟨left', hsame, -⟩
        cases hsame
        rfl

/-- Other values that stand for those of a format are decoded as these are. -/
theorem decode_equiv_eq_ok (toOld : β → α) (ofOld : α → β) {text : String} (h : format.decode text = .ok value) :
    (format.equiv toOld ofOld).decode text = .ok (ofOld value) := by
  obtain ⟨left, hrun, hleft⟩ := decode_eq_ok_iff.1 h
  exact decode_eq_ok_iff.2 ⟨left, Reader.run_map_done hrun ofOld, hleft⟩

/-! ## Single values -/

theorem reads_textAs (expected text : String) : (Reader.textAs expected).Reads (writeText text) text := by
  have hstarts : StartsValue '"' := .inl (by decide)
  refine ⟨⟨_, _, rfl, hstarts⟩, takes_whole hstarts (if_pos rfl) fun rest _ => ?_⟩
  show (do Reader.pass; Reader.textBody).run (writeText text ++ rest) = _
  rw [Reader.writeText_append, Reader.run_bind_pass, List.tail_cons, Reader.run_textBody]

theorem reads_text (value : String) : text.Reads value := reads_textAs _ value

theorem reads_bool (value : Bool) : bool.Reads value := by
  cases value with
  | false =>
    have hstarts : StartsValue 'f' := .inl (by decide)
    exact ⟨⟨_, _, rfl, hstarts⟩, takes_whole hstarts rfl fun rest _ => rfl⟩
  | true =>
    have hstarts : StartsValue 't' := .inl (by decide)
    exact ⟨⟨_, _, rfl, hstarts⟩, takes_whole hstarts rfl fun rest _ => rfl⟩

/-- A written integer is taken for itself where it is accepted. -/
theorem reads_numberAs (expected : String) {accept : Number → Except Misfit α} {written : Int}
    (hwhole : Reader.Whole written) (haccept : accept (.integer written) = .ok value) :
    (Reader.numberAs expected accept).Reads (writeInt written) value := by
  obtain ⟨c, rest, hwrite, hc⟩ := Reader.exists_head_writeInt written
  have hstarts : StartsValue c := hc.imp (fun hc => by simp [hc]) id
  refine ⟨⟨c, rest, hwrite, hstarts⟩, ?_⟩
  rw [hwrite]
  apply takes_whole hstarts (if_pos hc)
  intro rest' hrest
  rw [← hwrite, Reader.run_bind_done (Reader.takes_number hwhole rest' hrest)]
  simp only [haccept]
  rfl

theorem reads_ranged {expected : String} {least greatest : Int} {ofInt : Int → α} {toInt : α → Int}
    (hwhole : Reader.Whole (toInt value)) (hrange : least ≤ toInt value ∧ toInt value ≤ greatest)
    (hback : ofInt (toInt value) = value) : (ranged expected least greatest ofInt toInt).Reads value := by
  have haccept : acceptInt expected least greatest (.integer (toInt value)) = .ok (toInt value) := if_pos hrange
  have hreads := (reads_numberAs expected hwhole haccept).map ofInt
  rwa [hback] at hreads

/-- Numbers below a size of at most 64 bits. -/
theorem reads_sized {expected : String} {size : Nat} (hsize : size ≤ UInt64.size) {ofInt : Int → α} {toInt : α → Int}
    {n : Nat} (hn : n < size) (hto : toInt value = n) (hback : ofInt n = value) :
    (ranged expected 0 (size - 1) ofInt toInt).Reads value := by
  refine reads_ranged ?_ ?_ ?_
  · rw [hto]
    constructor <;> omega
  · rw [hto]
    omega
  · rw [hto, hback]

theorem reads_key {index : Nat} (h : index < UInt32.size) : key.Reads index :=
  reads_sized (by decide) h rfl rfl

theorem reads_word32 (value : UInt32) : word32.Reads value :=
  reads_sized (by decide) value.toNat_lt_size rfl UInt32.ofNat_toNat

theorem reads_word64 (value : UInt64) : word64.Reads value :=
  reads_sized (Nat.le_refl _) value.toNat_lt_size rfl UInt64.ofNat_toNat

theorem reads_int64 (value : Int64) : int64.Reads value := by
  refine reads_ranged ⟨value.le_toInt, ?_⟩ ⟨value.minValue_le_toInt, value.toInt_le⟩ value.ofInt_toInt
  exact Int.lt_trans value.toInt_lt (by decide)

/-! ## Formats made from others -/

theorem Reads.equiv {toOld : β → α} {ofOld : α → β} {value : β} (h : format.Reads (toOld value))
    (hback : ofOld (toOld value) = value) : (format.equiv toOld ofOld).Reads value := by
  have hreads := h.map ofOld
  rwa [hback] at hreads

section Checked

variable {toOld : β → α} {check : α → Except String β} {text : List Char}

theorem reads_checked {passed : β} (h : format.reader.Reads text value) (hcheck : check value = .ok passed) :
    (format.checked toOld check).reader.Reads text passed := by
  refine ⟨h.starts, fun rest hrest => ?_⟩
  show (format.reader >>= _).run (text ++ rest) = _
  rw [Reader.run_bind_done (h.takes rest hrest)]
  simp only [hcheck]
  rfl

/-- A value that its check refuses is not read, and the reason is the one that the check gives. -/
theorem decode_refused {reason : String} (h : format.reader.Reads text value) (hcheck : check value = .error reason) :
    (format.checked toOld check).decode (String.ofList text) = .error ⟨.unfit (.refused reason), none⟩ := by
  have hrun := h.takes [] bounded_nil
  rw [List.append_nil] at hrun
  have hstop : (format.checked toOld check).reader.run text = .stop ⟨.unfit (.refused reason), none⟩ [] := by
    show (format.reader >>= _).run text = _
    rw [Reader.run_bind_done hrun]
    simp only [hcheck]
    rfl
  rw [decode, Reader.ofText, String.toList_ofList, Reader.run_bind_stop hstop]

/-- What is decoded is what the check makes of a value that is decoded. -/
theorem decode_checked_eq_ok_iff {source : String} {passed : β} :
    (format.checked toOld check).decode source = .ok passed ↔
      ∃ value, format.decode source = .ok value ∧ check value = .ok passed := by
  have hrun : ∀ left, (format.checked toOld check).reader.run source.toList = .done passed left ↔
      ∃ value, format.reader.run source.toList = .done value left ∧ check value = .ok passed := by
    intro left
    show (format.reader >>= _).run source.toList = _ ↔ _
    cases hread : format.reader.run source.toList with
    | stop fault rest =>
      rw [Reader.run_bind_stop hread]
      simp
    | done value rest =>
      rw [Reader.run_bind_done hread]
      cases hcheck : check value with
      | ok found => simp [hcheck, and_comm]
      | error reason => simp [hcheck, Reader.unfit]
  simp only [decode_eq_ok_iff, hrun]
  constructor
  · rintro ⟨left, ⟨value, hread, hcheck⟩, hleft⟩
    exact ⟨value, ⟨left, hread, hleft⟩, hcheck⟩
  · rintro ⟨value, ⟨left, hread, hleft⟩, hcheck⟩
    exact ⟨left, ⟨value, hread, hcheck⟩, hleft⟩

end Checked

theorem reads_none (format : Format α) : format.optional.Reads none := by
  have hstarts : StartsValue 'n' := .inl (by decide)
  exact ⟨⟨_, _, rfl, hstarts⟩, fun rest _ => rfl⟩

theorem reads_optional {text : List Char} (h : format.reader.Reads text value) (hnull : text.head? ≠ some 'n') :
    format.optional.reader.Reads text (some value) := by
  obtain ⟨c, more, rfl, hstarts⟩ := h.starts
  refine ⟨h.starts, fun rest hrest => ?_⟩
  have hrun := h.takes rest hrest
  -- otherwise the value would be taken for null
  have hc : c ≠ 'n' := by
    rintro rfl
    exact hnull rfl
  show (Reader.next >>= _).run (c :: (more ++ rest)) = _
  rw [Reader.run_bind_next hstarts.not_blank]
  simp only [if_neg hc]
  exact Reader.run_map_done hrun some

theorem Reads.optional (h : format.Reads value) (hnull : (format.write value).head? ≠ some 'n') :
    format.optional.Reads (some value) :=
  reads_optional h hnull

theorem reads_elements (expected : String) {texts : List (List Char)} {values : List α}
    (h : List.Forall₂ format.reader.Reads texts values) :
    (listAs expected format).reader.Reads ('[' :: (commas texts ++ [']'])) values := by
  have hstarts : StartsValue '[' := .inl (by decide)
  refine ⟨⟨_, _, rfl, hstarts⟩, takes_whole hstarts (if_pos rfl) ?_⟩
  exact takes_enclosed (fun rest => Reader.run_items h rest) Reader.run_closeList

theorem reads_listAs (expected : String) {values : List α} (h : ∀ value ∈ values, format.Reads value) :
    (listAs expected format).Reads values := by
  have hitems : List.Forall₂ format.reader.Reads (values.map format.write) values := by
    rw [List.forall₂_map_left_iff, List.forall₂_same]
    exact h
  exact reads_elements expected hitems

theorem reads_texts (texts : List String) : text.list.Reads texts := reads_listAs _ fun value _ => reads_text value

/-! ## Maps from keys -/

theorem run_quotedKey {index : Nat} (h : index < UInt32.size) (rest : List Char) :
    quotedKey.run ('"' :: writeInt index ++ '"' :: rest) = .done index rest := by
  obtain ⟨c, more, hwrite, hc⟩ := Reader.exists_head_writeInt index
  have hkey : key.reader.run (writeInt index ++ '"' :: rest) = .done index ('"' :: rest) :=
    (reads_key h).takes _ (bounded_cons (by decide) rest)
  rw [quotedKey, List.cons_append, Reader.run_bind_pass, List.tail_cons, Reader.run_bind_peek]
  rw [hwrite] at hkey ⊢
  simp only [List.cons_append, List.head?_cons, if_pos hc]
  exact Reader.run_bind_done hkey _

/-- How an entry of a map is written behind the opening quote of its key. -/
def entryTail (format : Format α) (entry : Nat × α) : List Char :=
  writeInt entry.1 ++ '"' :: ':' :: format.write entry.2

theorem enters_mapOfKeys {entries : List (Nat × α)}
    (h : ∀ entry ∈ entries, entry.1 < UInt32.size ∧ format.Reads entry.2) (before : List (Nat × α)) :
    Reader.Enters (fun found => do
        let index ← quotedKey
        Reader.colon
        return (index, ← format.reader) :: found)
      before (entries.map fun entry => '"' :: entryTail format entry) (entries.reverse ++ before) := by
  induction entries generalizing before with
  | nil => exact .nil before
  | cons entry entries ih =>
    rw [List.forall_mem_cons] at h
    rw [List.reverse_cons, List.append_assoc]
    refine .cons (fun rest hrest => ?_) (ih h.2 (entry :: before))
    have hkey := run_quotedKey h.1.1 (':' :: format.write entry.2 ++ rest)
    have htext : '"' :: entryTail format entry ++ rest =
        '"' :: writeInt entry.1 ++ '"' :: (':' :: format.write entry.2 ++ rest) := by simp [entryTail]
    rw [htext, Reader.run_bind_done hkey, List.cons_append, Reader.run_bind_done (Reader.run_colon _)]
    rw [Reader.run_bind_done (h.1.2.takes rest hrest)]
    rfl

theorem write_mapOfKeys (format : Format α) (entries : List (Nat × α)) : format.mapOfKeys.write entries =
    '\x7b' :: (commas (entries.map fun entry => '"' :: entryTail format entry) ++ ['\x7d']) := by
  simp [mapOfKeys, entryTail]

theorem reads_mapOfKeys {entries : List (Nat × α)}
    (h : ∀ entry ∈ entries, entry.1 < UInt32.size ∧ format.Reads entry.2) : format.mapOfKeys.Reads entries := by
  have hstarts : StartsValue '\x7b' := .inl (by decide)
  have henters := enters_mapOfKeys h []
  rw [List.append_nil] at henters
  rw [Reads, write_mapOfKeys]
  refine ⟨⟨_, _, rfl, hstarts⟩, takes_whole hstarts (if_pos rfl) (takes_object henters fun rest => ?_)⟩
  rw [List.reverse_reverse]
  rfl

end Format

end FunctionTrees.Json
