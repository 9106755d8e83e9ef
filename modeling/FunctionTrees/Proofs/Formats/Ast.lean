import FunctionTrees.Formats.Ast
import FunctionTrees.Proofs.Json.Record
import FunctionTrees.Proofs.Json.Yielding
import FunctionTrees.Proofs.Operator
import FunctionTrees.Proofs.PositionTable
import FunctionTrees.Proofs.StringPool

/-!
# Function trees are read back from JSON

* `Node.Fits`, `Symbol.Fits`, `NodeData.Fits`, `CallSite.Fits`, `Ast.Fits` : all keys and symbols are numbers of 32
  bits;
* `reads_stringPool`, `reads_nodeData`, `reads_callSite`, `reads_position` : what makes up a tree is read back;
* `reads_positionTable` : a table is, in whatever order its entries are written;
* `reads_ast` : a tree is;
* `yields_ast`, `yields_position`, `yields_positionTable` : what is read has keys and symbols of 32 bits.
-/

set_option autoImplicit false

namespace FunctionTrees

open Json

/-! ## Keys and symbols -/

def Node.Fits (node : Node) : Prop := node.index < UInt32.size

def Symbol.Fits (symbol : Symbol) : Prop := symbol.index < UInt32.size

instance (node : Node) : Decidable node.Fits := inferInstanceAs (Decidable (_ < _))

instance (symbol : Symbol) : Decidable symbol.Fits := inferInstanceAs (Decidable (_ < _))

theorem reads_node {node : Node} (h : node.Fits) : Node.format.Reads node := (Format.reads_key h).equiv rfl

theorem head_writeInt_ne (value : Int) : (Format.writeInt value).head? ≠ some 'n' := by
  obtain ⟨c, rest, hwrite, hc⟩ := Reader.exists_head_writeInt value
  rw [hwrite]
  rintro ⟨⟩
  exact absurd hc (by decide)

theorem reads_symbol {symbol : Symbol} (h : symbol.Fits) : Symbol.format.Reads symbol := (Format.reads_key h).equiv rfl

/-! ## Containers -/

theorem reads_stringPool (pool : StringPool) : StringPool.format.Reads pool :=
  (Format.reads_listAs _ fun text _ => Format.reads_text text).equiv pool.ofList_strings

theorem reads_arena {α : Type} {format : Format α} {arena : Arena α} (h : ∀ value ∈ arena.toList, format.Reads value) :
    (Arena.format format).Reads arena :=
  Format.reads_record (List.nodup_singleton _) (.field (Format.reads_listAs _ h) .done) rfl

/-! ## Nodes -/

theorem reads_operator (op : Operator) : Operator.format.Reads op := by
  apply Format.reads_checked (Format.reads_text op.tag)
  rw [Operator.ofTag, Operator.ofTag?_eq_some_iff.2 rfl]

theorem reads_kind (kind : NodeKind) : NodeKind.format.Reads kind := by
  cases kind <;> exact Case.reads_bareCase rfl

def Constant.Fits (value : Constant) : Prop := ∀ symbol ∈ value.str?, symbol.Fits

theorem reads_constant {value : Constant} (h : value.Fits) : Constant.format.Reads value := by
  cases value with
  | int value => exact Case.reads_contentCase rfl ((Format.reads_int64 value).takes.map Constant.int)
  | float bits => exact Case.reads_contentCase rfl ((Format.reads_word64 bits).takes.map Constant.float)
  | bool value => exact Case.reads_contentCase rfl ((Format.reads_bool value).takes.map Constant.bool)
  | str symbol => exact Case.reads_contentCase rfl ((reads_symbol (h symbol rfl)).takes.map Constant.str)
  | null => exact Case.reads_bareCase rfl

structure NodeData.Fits (data : NodeData) : Prop where
  children : ∀ child ∈ data.children, child.Fits
  constant : ∀ value ∈ data.constant?, value.Fits

theorem reads_nodeData {data : NodeData} (h : data.Fits) : NodeData.format.Reads data := by
  cases data with
  | operator op => exact Case.reads_contentCase rfl ((reads_operator op).takes.map NodeData.operator)
  | constant value =>
    exact Case.reads_contentCase rfl ((reads_constant (h.constant value rfl)).takes.map NodeData.constant)
  | empty => exact Case.reads_bareCase rfl
  | interior kind children =>
    have hchildren : Node.format.list.Reads children :=
      Format.reads_listAs _ fun child hmem => reads_node (h.children child hmem)
    have hrow : NodeData.interiorLayout.ReadsFrom
        [("kind", NodeKind.format.write kind), ("children", Node.format.list.write children)] (kind, children, ()) :=
      .field (reads_kind kind) (.field hchildren .done)
    have htuple := Format.takes_tuple hrow "tuple variant NodeData::Interior"
    rw [List.map_cons, List.map_singleton, Reader.commas_cons, Reader.trailed, List.flatMap_singleton] at htuple
    exact Case.reads_contentCase rfl (htuple.map fun row => NodeData.interior row.1 row.2.1)

structure CallSite.Fits (site : CallSite) : Prop where
  call : site.call.Fits
  target : site.target.Fits
  callee : ∀ symbol ∈ site.callee, symbol.Fits

theorem reads_callSite {site : CallSite} (h : site.Fits) : CallSite.format.Reads site := by
  refine Format.reads_record (by decide)
    (.field (reads_node h.call) (.field (reads_node h.target) (.field ?_ .done))) rfl
  cases hcallee : site.callee with
  | none => exact Format.reads_none _
  | some symbol => exact (reads_symbol (h.callee symbol hcallee)).optional (head_writeInt_ne symbol.index)

/-! ## Positions -/

/-- The fields of a position make the position. -/
theorem Position.ofFields_fields (position : Position) : Position.ofFields position.fields = .ok position := by
  obtain ⟨file, extent⟩ := position
  have hextent : Extent.ofBounds? extent.firstLine extent.firstCol extent.lastLine extent.lastCol = some extent :=
    dif_pos ⟨extent.one_le, extent.ordered⟩
  have hlocated : Located.ofBounds? file extent.firstLine extent.firstCol extent.lastLine extent.lastCol =
      some ⟨file, extent⟩ := congrArg (Option.map (Located.mk file)) hextent
  simp only [fields, ofFields, hlocated]

theorem reads_position {position : Position} (h : position.file.Fits) : Position.format.Reads position := by
  have hrow : Position.Fields.format.Reads position.fields :=
    Format.reads_record (by decide) (.field (reads_symbol h) (.field (Format.reads_word32 _)
      (.field (Format.reads_word32 _) (.field (Format.reads_word32 _) (.field (Format.reads_word32 _) .done))))) rfl
  exact Format.reads_checked hrow position.ofFields_fields

def PositionTable.Fits (table : PositionTable) : Prop := ∀ entry ∈ table.entries, entry.1.Fits ∧ entry.2.file.Fits

/-- A table is read back in whatever order its entries are written. -/
theorem reads_positionTable {table : PositionTable} (h : table.Fits)
    {order : List (Nat × Position) → List (Nat × Position)} (horder : ∀ entries, (order entries).Perm entries) :
    PositionTable.format.reader.Reads ((PositionTable.formatIn order).write table) table := by
  have hperm := horder table.toEntries
  have hentries : Position.format.mapOfKeys.Reads (order table.toEntries) := by
    refine Format.reads_mapOfKeys fun entry hmem => ?_
    obtain ⟨⟨node, position⟩, hentry, rfl⟩ := List.mem_map.1 (hperm.mem_iff.1 hmem)
    obtain ⟨hnode, hfile⟩ := h _ (List.mem_reverse.1 hentry)
    exact ⟨hnode, reads_position hfile⟩
  have hback : PositionTable.ofEntries (order table.toEntries) = table := by
    -- the table has each node once, so no entry hides another
    have hnodes := hperm.map fun entry : Nat × Position => ((⟨entry.1⟩, entry.2) : Node × Position)
    rw [PositionTable.toEntries, List.map_map] at hnodes
    exact PositionTable.ofList_of_perm (hnodes.trans (List.Perm.of_eq (List.map_id _)))
  have hrow : Layout.ReadsFrom (.field "positions" Position.format.mapOfKeys .refused .done)
      [("positions", Position.format.mapOfKeys.write (order table.toEntries))] (order table.toEntries, ()) :=
    .field hentries .done
  exact Format.reads_object (by decide) hrow hback

/-! ## Whole trees -/

/-- All keys and symbols are numbers of 32 bits. -/
structure Ast.Fits (ast : Ast) : Prop where
  nodes : ∀ data ∈ ast.nodes.toList, data.Fits
  sites : ∀ site ∈ ast.callSites, site.Fits

theorem reads_ast {ast : Ast} (h : ast.Fits) : Ast.format.Reads ast := by
  refine Format.reads_record (by decide) (.field ?_ (.field (reads_stringPool ast.strings) (.field ?_ .done))) rfl
  · exact reads_arena fun data hmem => reads_nodeData (h.nodes data hmem)
  · exact Format.reads_listAs _ fun site hmem => reads_callSite (h.sites site hmem)

/-! ## What is read -/

theorem yields_node : Node.format.Yields Node.Fits := Format.yields_key.equiv fun _ hindex => hindex

theorem yields_symbol : Symbol.format.Yields Symbol.Fits := Format.yields_key.equiv fun _ hindex => hindex

theorem yields_arena {α : Type} {format : Format α} {P : α → Prop} (h : format.Yields P) :
    (Arena.format format).Yields fun arena => ∀ value ∈ arena.toList, P value := by
  have hlayout : (Arena.layout format).Yields _ := Layout.yields_required (h.listAs _) .done
  refine Format.yields_record hlayout (fun (slots, _) hslots => ?_) "ArenaMap"
  rw [Arena.toList]
  exact hslots.1

theorem yields_constant : Constant.format.Yields Constant.Fits := by
  have hplain {α : Type} {reader : Reader α} {f : α → Constant} (hf : ∀ value, (f value).str? = none) :
      (f <$> reader).Yields Constant.Fits :=
    (Reader.yields_any _).map fun value _ symbol hsymbol => by simp [hf] at hsymbol
  refine Case.yields_reader ⟨hplain fun _ => rfl, hplain fun _ => rfl, hplain fun _ => rfl, ?_, ?_⟩
  · exact yields_symbol.map fun symbol hfits found hfound => Option.some.inj hfound ▸ hfits
  · exact fun _ hsymbol => nomatch hsymbol

theorem yields_nodeData : NodeData.format.Yields NodeData.Fits := by
  have hinterior : NodeData.interiorLayout.Yields _ :=
    Layout.yields_required (Reader.yields_any _) (Layout.yields_required (yields_node.listAs _) .done)
  refine Case.yields_reader ⟨?_, ?_, ?_, ?_⟩
  · exact (Reader.yields_any _).map fun _ _ => ⟨(fun _ hchild => nomatch hchild), (fun _ hvalue => nomatch hvalue)⟩
  · refine yields_constant.map fun value hfits => ⟨(fun _ hchild => nomatch hchild), fun found hfound => ?_⟩
    exact Option.some.inj hfound ▸ hfits
  · exact ⟨(fun _ hchild => nomatch hchild), (fun _ hvalue => nomatch hvalue)⟩
  · exact (Format.yields_tuple hinterior _).map fun (kind, children, _) hrow =>
      ⟨hrow.2.1, (fun _ hvalue => nomatch hvalue)⟩

theorem yields_callSite : CallSite.format.Yields CallSite.Fits := by
  refine Format.yields_record (Layout.yields_required yields_node (Layout.yields_required yields_node
    (Layout.yields_orNone yields_symbol .done))) ?_ _
  rintro ⟨call, target, callee, _⟩ ⟨hcall, htarget, hcallee, -⟩
  exact ⟨hcall, htarget, hcallee⟩

theorem Position.file_of_ofFields {fields : Position.Fields} {position : Position}
    (h : Position.ofFields fields = .ok position) : position.file = fields.file := by
  unfold ofFields at h
  split at h
  next found hfound =>
    cases h
    obtain ⟨extent, -, rfl⟩ := Option.map_eq_some_iff.1 hfound
    rfl
  next => cases h

theorem yields_position : Position.format.Yields fun position => position.file.Fits := by
  have hnumber : Format.word32.Yields fun _ => True := Reader.yields_any _
  have hfields : Position.Fields.format.Yields fun fields => fields.file.Fits := by
    refine Format.yields_record (Layout.yields_required yields_symbol (Layout.yields_required hnumber
      (Layout.yields_required hnumber (Layout.yields_required hnumber (Layout.yields_required hnumber .done))))) ?_ _
    exact fun row hrow => hrow.1
  refine hfields.checked fun fields position hfits hposition => ?_
  rw [Position.file_of_ofFields hposition]
  exact hfits

theorem yields_positionTable : PositionTable.format.Yields PositionTable.Fits := by
  refine Format.yields_record (Layout.yields_required (Format.Yields.mapOfKeys yields_position) .done) ?_ _
  rintro ⟨entries, _⟩ ⟨hentries, -⟩ entry hmem
  obtain ⟨⟨index, position⟩, hentry, rfl⟩ := List.mem_map.1 (PositionTable.mem_of_mem_ofList hmem)
  exact hentries _ hentry

theorem yields_ast : Ast.format.Yields Ast.Fits := by
  have hpool : StringPool.format.Yields fun _ => True := Reader.yields_any _
  refine Format.yields_record (Layout.yields_required (yields_arena yields_nodeData) (Layout.yields_required hpool
    (Layout.yields_required (yields_callSite.listAs _) .done))) ?_ _
  rintro ⟨nodes, strings, callSites, _⟩ ⟨hnodes, -, hsites, -⟩
  exact ⟨hnodes, hsites⟩

end FunctionTrees
