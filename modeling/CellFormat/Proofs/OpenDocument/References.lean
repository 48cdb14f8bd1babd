import CellFormat.Code.Parser
import CellFormat.OpenDocument.DocumentStyles
import CellFormat.Proofs.Number.Text
import CellFormat.Proofs.Registry.FirstOccurrences
import CellFormat.Proofs.Xml.Nodes
import Mathlib.Data.List.DropRight
import Mathlib.Data.List.Nodup
/-!
# The references of a document's styles

The styles of a document refer to each other by name. A name begins with the id of its format, and the digits end
where the name does or at a letter, so the id can be read off it and formats do not share names. Within a format,
the name of a branch ends in its index. The styles of each format are its volatile ones and then the visible one,
which has a map to each of them, and this is where all maps of a document stand.
-/

namespace CellFormat.OpenDocument

open Xml Element

variable {id index : Nat} {name : String} {f : Format} {es : List Element}

/-! ### References -/

def name? (e : Element) : Option String := e.getAttribute? "style:name"

def isVolatile (e : Element) : Bool := (e.getAttribute? "style:volatile").isSome

def isMap (e : Element) : Bool := e.tag == "style:map"

/-- The name of the style that a map applies. -/
def applied? (e : Element) : Option String := e.getAttribute? "style:apply-style-name"

/-- The references in a list of styles are sound, and it has this many visible styles, in the order of their ids. A map
of a visible style applies one of the volatile styles right in front of it, and every volatile style is applied by
exactly one map, wherever in the document it stands. -/
structure SoundReferences (es : List Element) (size : Nat) : Prop where
  named : ∀ e ∈ es, (name? e).isSome = true
  distinct : (es.map name?).Nodup
  visible : (es.filter (!isVolatile ·)).map name? = (List.range size).map fun id => some (styleName id)
  mapped : ∀ before e behind, es = before ++ e :: behind → isVolatile e = false →
    ∀ map ∈ e.childrenNamed "style:map", ∃ hidden ∈ before.rtakeWhile isVolatile, applied? map = name? hidden
  applied : ∀ e ∈ es, isVolatile e = true →
    (nodesAll es).countP (fun map => applied? map == name? e && isMap map) = 1

/-! ### Names -/

theorem toList_styleName (id : Nat) : (styleName id).toList = 'N' :: writeNat id := by
  rw [styleName, String.toList_append, Nat.toList_repr]
  rfl

theorem toList_branchName (name : String) (index : Nat) :
    (branchName name index).toList = name.toList ++ 'P' :: writeNat index := by
  rw [branchName, String.toList_append, String.toList_append, Nat.toList_repr, List.append_assoc]
  rfl

/-- The id at the start of the name of a style. -/
def idOfName (name : String) : Nat := digitsValue ((name.toList.drop 1).takeWhile Char.isDigit)

theorem idOfName_of_stops {rest : List Char} (hname : name.toList = 'N' :: (writeNat id ++ rest))
    (hrest : Stops Char.isDigit rest) : idOfName name = id := by
  rw [idOfName, hname, List.drop_one, List.tail_cons,
    takeWhile_append_of_stops (fun _ => isDigit_of_mem_writeNat) hrest, digitsValue_writeNat]

theorem idOfName_styleName (id : Nat) : idOfName (styleName id) = id := by
  have hname : (styleName id).toList = 'N' :: (writeNat id ++ []) := by
    rw [toList_styleName, List.append_nil]
  exact idOfName_of_stops hname (stops_nil _)

theorem idOfName_branchName (id index : Nat) : idOfName (branchName (styleName id) index) = id := by
  have hname : (branchName (styleName id) index).toList = 'N' :: (writeNat id ++ 'P' :: writeNat index) := by
    rw [toList_branchName, toList_styleName, List.cons_append]
  exact idOfName_of_stops hname (stops_cons (by decide) _)

theorem branchName_injective (name : String) : Function.Injective (branchName name) := by
  intro index index' heq
  have hlists := congrArg String.toList heq
  rw [toList_branchName, toList_branchName, List.append_cancel_left_eq, List.cons.injEq] at hlists
  rw [← digitsValue_writeNat index, hlists.2, digitsValue_writeNat]

theorem branchName_ne (name : String) (index : Nat) : branchName name index ≠ name := by
  intro heq
  have hlength := congrArg (List.length ∘ String.toList) heq
  simp [toList_branchName] at hlength

/-! ### The styles of one format -/

def hiddenStyles (f : Format) (name : String) : List Element :=
  (styledBranches f).map fun (index, _, body) =>
    (sectionStyle (branchName name index) body).setAttribute "style:volatile" "true"

def branchMaps (f : Format) (name : String) : List Element :=
  (styledBranches f).map fun (index, condition, _) => mapElement condition (branchName name index)

def visibleStyle (f : Format) (name : String) : Element :=
  { sectionStyle name f.primary with children := (sectionStyle name f.primary).children ++ branchMaps f name }

theorem styles_eq (f : Format) (name : String) : styles f name = hiddenStyles f name ++ [visibleStyle f name] := rfl

theorem isVolatile_of_mem_hiddenStyles : ∀ e ∈ hiddenStyles f name, isVolatile e = true := by
  intro e he
  obtain ⟨branch, -, rfl⟩ := List.mem_map.1 he
  rfl

theorem isVolatile_visibleStyle (f : Format) (name : String) : isVolatile (visibleStyle f name) = false := rfl

theorem name?_visibleStyle (f : Format) (name : String) : name? (visibleStyle f name) = some name := rfl

theorem map_name?_hiddenStyles (f : Format) (name : String) :
    (hiddenStyles f name).map name? = ((styledBranches f).map Prod.fst).map (some ∘ branchName name) := by
  rw [hiddenStyles, List.map_map, List.map_map]
  exact List.map_congr_left fun _ _ => rfl

theorem map_applied?_branchMaps (f : Format) (name : String) :
    (branchMaps f name).map applied? = (hiddenStyles f name).map name? := by
  rw [map_name?_hiddenStyles, branchMaps, List.map_map, List.map_map]
  exact List.map_congr_left fun _ _ => rfl

theorem map_fst_styledBranches (f : Format) : (styledBranches f).map Prod.fst
    = (f.branches.zipIdx.filter fun pair => (conditionText? pair.1.condition).isSome).map Prod.snd := by
  rw [styledBranches]
  induction f.branches.zipIdx with
  | nil => rfl
  | cons pair pairs ih =>
      obtain ⟨branch, index⟩ := pair
      cases hcondition : conditionText? branch.condition <;> simp [hcondition, ih]

/-- Branches without a style leave gaps, but no index comes twice. -/
theorem nodup_indices (f : Format) : ((styledBranches f).map Prod.fst).Nodup := by
  have hrange : (f.branches.zipIdx.map Prod.snd).Nodup := by
    rw [List.zipIdx_map_snd]
    exact List.nodup_range'
  rw [map_fst_styledBranches]
  exact hrange.sublist (List.filter_sublist.map Prod.snd)

theorem nodup_names_styles (f : Format) (name : String) : ((styles f name).map name?).Nodup := by
  rw [styles_eq, List.map_append, List.map_singleton, name?_visibleStyle, map_name?_hiddenStyles]
  refine List.nodup_append.2 ⟨?_, List.nodup_singleton _, ?_⟩
  · exact (nodup_indices f).map ((Option.some_injective _).comp (branchName_injective name))
  · intro x hx y hy hxy
    obtain ⟨index, -, rfl⟩ := List.mem_map.1 hx
    exact branchName_ne name index (Option.some.inj (hxy.trans (List.mem_singleton.1 hy)))

theorem exists_name_of_mem_styles {e : Element} (he : e ∈ styles f (styleName id)) :
    ∃ name, name? e = some name ∧ idOfName name = id := by
  rcases List.mem_append.1 he with hhidden | hvisible
  · obtain ⟨⟨index, condition, body⟩, -, rfl⟩ := List.mem_map.1 hhidden
    exact ⟨branchName (styleName id) index, rfl, idOfName_branchName id index⟩
  · rw [List.mem_singleton.1 hvisible]
    exact ⟨styleName id, rfl, idOfName_styleName id⟩

/-! ### The maps of one format -/

theorem leaf_of_mem_sectionStyle (name : String) (s : Section) :
    ∀ child ∈ (sectionStyle name s).children, child.children = [] ∧ isMap child = false := by
  intro child hchild
  rcases List.mem_append.1 hchild with hcolor | hpart
  · obtain ⟨color, -, rfl⟩ := List.mem_map.1 hcolor
    exact ⟨rfl, rfl⟩
  · obtain ⟨part, -, rfl⟩ := List.mem_map.1 hpart
    cases part <;> exact ⟨rfl, rfl⟩

theorem leaf_of_mem_branchMaps : ∀ map ∈ branchMaps f name, map.children = [] ∧ isMap map = true := by
  intro map hmap
  obtain ⟨branch, -, rfl⟩ := List.mem_map.1 hmap
  exact ⟨rfl, rfl⟩

theorem shallow_of_mem_styles {e : Element} (he : e ∈ styles f name) :
    isMap e = false ∧ ∀ child ∈ e.children, child.children = [] := by
  rcases List.mem_append.1 he with hhidden | hvisible
  · obtain ⟨⟨index, condition, body⟩, -, rfl⟩ := List.mem_map.1 hhidden
    exact ⟨rfl, fun child hchild => (leaf_of_mem_sectionStyle (branchName name index) body child hchild).1⟩
  · rw [List.mem_singleton.1 hvisible]
    refine ⟨rfl, fun child hchild => ?_⟩
    rcases List.mem_append.1 hchild with hchild | hmap
    · exact (leaf_of_mem_sectionStyle name f.primary child hchild).1
    · exact (leaf_of_mem_branchMaps child hmap).1

theorem filter_isMap_nodesAll (h : ∀ e ∈ es, isMap e = false ∧ ∀ child ∈ e.children, child.children = []) :
    (nodesAll es).filter isMap = es.flatMap (·.childrenNamed "style:map") := by
  induction es with
  | nil => rfl
  | cons e es ih =>
      obtain ⟨hmap, hchildren⟩ := h e List.mem_cons_self
      have hnot : ¬isMap e = true := by rw [hmap]; exact Bool.false_ne_true
      rw [nodesAll, nodes_eq, nodesAll_of_childless hchildren, List.filter_append, List.filter_cons_of_neg hnot,
        ih fun x hx => h x (List.mem_cons_of_mem _ hx), List.flatMap_cons]
      rfl

theorem childrenNamed_visibleStyle (f : Format) (name : String) :
    (visibleStyle f name).childrenNamed "style:map" = branchMaps f name := by
  show ((sectionStyle name f.primary).children ++ branchMaps f name).filter isMap = _
  rw [List.filter_append, List.filter_eq_nil_iff.2, List.filter_eq_self.2, List.nil_append]
  · exact fun map hmap => (leaf_of_mem_branchMaps map hmap).2
  · intro child hchild
    rw [(leaf_of_mem_sectionStyle name f.primary child hchild).2]
    exact Bool.false_ne_true

theorem flatMap_childrenNamed_styles (f : Format) (name : String) :
    (styles f name).flatMap (·.childrenNamed "style:map") = branchMaps f name := by
  have hhidden : (hiddenStyles f name).flatMap (·.childrenNamed "style:map") = [] := by
    refine List.flatMap_eq_nil_iff.2 fun e he => List.filter_eq_nil_iff.2 fun child hchild => ?_
    obtain ⟨⟨index, condition, body⟩, -, rfl⟩ := List.mem_map.1 he
    exact Bool.not_eq_true _ ▸ (leaf_of_mem_sectionStyle (branchName name index) body child hchild).2
  rw [styles_eq, List.flatMap_append, hhidden, List.nil_append, List.flatMap_singleton, childrenNamed_visibleStyle]

/-! ### Groups of styles -/

section Groups

variable {α β : Type} {p : β → Bool} {as : List α}

theorem takeWhile_append_cons_of_neg {xs ys : List β} {y : β} (hy : p y = false) :
    (xs ++ y :: ys).takeWhile p = xs.takeWhile p := by
  induction xs with
  | nil => simp [hy]
  | cons x xs ih => simp only [List.cons_append, List.takeWhile_cons, ih]

theorem rtakeWhile_append_cons_of_neg {xs ys : List β} {y : β} (hy : p y = false) :
    (xs ++ y :: ys).rtakeWhile p = ys.rtakeWhile p := by
  rw [List.rtakeWhile, List.reverse_append, List.reverse_cons, List.append_assoc, List.singleton_append,
    takeWhile_append_cons_of_neg hy]
  rfl

/-- In a list of groups that each end in their visible value, a visible value has the hidden ones of its group in
front of it. -/
theorem exists_group (hidden : α → List β) (visible : α → β) (hhidden : ∀ a ∈ as, ∀ x ∈ hidden a, p x = true)
    (hvisible : ∀ a ∈ as, p (visible a) = false) {before behind : List β} {x : β}
    (hsplit : (as.flatMap fun a => hidden a ++ [visible a]) = before ++ x :: behind)
    (hx : p x = false) : ∃ a ∈ as, x = visible a ∧ before.rtakeWhile p = hidden a := by
  induction as generalizing before with
  | nil => simp at hsplit
  | cons a as ih =>
      have hall := hhidden a List.mem_cons_self
      have hself : a ∈ a :: as := List.mem_cons_self
      rw [List.flatMap_cons, List.append_assoc, List.singleton_append] at hsplit
      -- Either the first group begins the part in front of `x`, or `x` is in the first group.
      rcases List.append_eq_append_iff.1 hsplit with ⟨run, rfl, hrest⟩ | ⟨run, hrun, hrest⟩
      · cases run with
        | nil =>
            rw [List.append_nil]
            exact ⟨a, hself, (List.cons.inj hrest).1.symm, List.rtakeWhile_eq_self_iff.2 hall⟩
        | cons y run =>
            obtain ⟨rfl, hbehind⟩ := List.cons.inj hrest
            obtain ⟨b, hb, hgroup⟩ := ih (fun b hb => hhidden b (List.mem_cons_of_mem _ hb))
              (fun b hb => hvisible b (List.mem_cons_of_mem _ hb)) hbehind
            rw [rtakeWhile_append_cons_of_neg (hvisible a hself)]
            exact ⟨b, List.mem_cons_of_mem _ hb, hgroup⟩
      · cases run with
        | nil =>
            rw [List.append_nil] at hrun
            exact ⟨a, hself, (List.cons.inj hrest).1, hrun ▸ List.rtakeWhile_eq_self_iff.2 hall⟩
        | cons y run =>
            obtain ⟨rfl, -⟩ := List.cons.inj hrest
            have htrue := hall x (hrun ▸ List.mem_append_right _ List.mem_cons_self)
            exact absurd (hx.symm.trans htrue) Bool.false_ne_true

end Groups

/-! ### The styles of a document -/

namespace DocumentStyles

variable (r : DocumentStyles)

theorem map_fst_indexed : r.formats.indexed.map Prod.fst = List.range r.size := by
  rw [Registry.indexed, List.map_map, size, Registry.size, List.range_eq_range']
  exact List.zipIdx_map_snd 0 _

theorem mem_toElements {e : Element} :
    e ∈ r.toElements ↔ ∃ pair ∈ r.formats.indexed, e ∈ styles pair.2 (styleName pair.1) :=
  List.mem_flatMap

theorem nodup_names : (r.toElements.map name?).Nodup := by
  have hids : (r.formats.indexed.map Prod.fst).Nodup := map_fst_indexed r ▸ List.nodup_range
  rw [toElements, List.map_flatMap, List.nodup_flatMap]
  refine ⟨fun pair _ => nodup_names_styles _ _, (List.pairwise_map.1 hids).imp ?_⟩
  -- Names of two formats differ, since they begin with different ids.
  intro pair pair' hne x hx hx'
  obtain ⟨e, he, rfl⟩ := List.mem_map.1 hx
  obtain ⟨e', he', hname⟩ := List.mem_map.1 hx'
  obtain ⟨name, hnamed, hid⟩ := exists_name_of_mem_styles he
  obtain ⟨name', hnamed', hid'⟩ := exists_name_of_mem_styles he'
  rw [hnamed, hnamed', Option.some_inj] at hname
  exact hne (hid.symm.trans (hname ▸ hid'))

theorem map_name?_visible : (r.toElements.filter (!isVolatile ·)).map name?
    = (List.range r.size).map fun id => some (styleName id) := by
  have hgroup : ∀ f name, ((styles f name).filter (!isVolatile ·)).map name? = [some name] := by
    intro f name
    rw [styles_eq, List.filter_append, List.filter_eq_nil_iff.2, List.nil_append]
    · rfl
    · intro e he
      rw [isVolatile_of_mem_hiddenStyles e he]
      exact Bool.false_ne_true
  rw [toElements, List.filter_flatMap, List.map_flatMap, ← map_fst_indexed, List.map_map]
  simp only [hgroup]
  exact List.map_eq_flatMap.symm

theorem exists_hidden_of_map {before behind : List Element} {e : Element}
    (hsplit : r.toElements = before ++ e :: behind) (he : isVolatile e = false) :
    ∀ map ∈ e.childrenNamed "style:map", ∃ hidden ∈ before.rtakeWhile isVolatile, applied? map = name? hidden := by
  obtain ⟨⟨id, f⟩, -, rfl, hbefore⟩ := exists_group
    (fun pair : Nat × Format => hiddenStyles pair.2 (styleName pair.1))
    (fun pair => visibleStyle pair.2 (styleName pair.1))
    (fun pair _ => isVolatile_of_mem_hiddenStyles) (fun pair _ => isVolatile_visibleStyle _ _) hsplit he
  intro map hmap
  rw [childrenNamed_visibleStyle] at hmap
  have happlied : applied? map ∈ (hiddenStyles f (styleName id)).map name? :=
    map_applied?_branchMaps f (styleName id) ▸ List.mem_map_of_mem hmap
  obtain ⟨hidden, hhidden, hname⟩ := List.mem_map.1 happlied
  exact ⟨hidden, hbefore ▸ hhidden, hname.symm⟩

/-- The maps of a document apply its volatile styles one after the other. -/
theorem map_applied?_maps :
    ((nodesAll r.toElements).filter isMap).map applied? = (r.toElements.filter isVolatile).map name? := by
  have hgroup : ∀ f name, ((styles f name).filter isVolatile).map name? = (branchMaps f name).map applied? := by
    intro f name
    rw [map_applied?_branchMaps, styles_eq, List.filter_append, List.filter_eq_self.2 isVolatile_of_mem_hiddenStyles]
    exact congrArg _ (List.append_nil _)
  have hshallow : ∀ e ∈ r.toElements, isMap e = false ∧ ∀ child ∈ e.children, child.children = [] := by
    intro e he
    obtain ⟨pair, -, he⟩ := (mem_toElements r).1 he
    exact shallow_of_mem_styles he
  rw [filter_isMap_nodesAll hshallow, toElements, List.flatMap_assoc, List.filter_flatMap, List.map_flatMap]
  simp only [flatMap_childrenNamed_styles, List.map_flatMap, hgroup]

theorem countP_applied? {e : Element} (he : e ∈ r.toElements) (hvolatile : isVolatile e = true) :
    (nodesAll r.toElements).countP (fun map => applied? map == name? e && isMap map) = 1 := by
  have hmem : name? e ∈ (r.toElements.filter isVolatile).map name? :=
    List.mem_map_of_mem (List.mem_filter.2 ⟨he, hvolatile⟩)
  have hnodup : ((r.toElements.filter isVolatile).map name?).Nodup :=
    (nodup_names r).sublist (List.filter_sublist.map name?)
  have hcount := List.count_eq_one_of_mem hnodup hmem
  rw [← map_applied?_maps, List.count, List.countP_map, List.countP_filter] at hcount
  exact hcount

theorem soundReferences : SoundReferences r.toElements r.size where
  named e he := by
    obtain ⟨pair, -, he⟩ := (mem_toElements r).1 he
    obtain ⟨name, hname, -⟩ := exists_name_of_mem_styles he
    rw [hname]
    rfl
  distinct := nodup_names r
  visible := map_name?_visible r
  mapped _ _ _ := exists_hidden_of_map r
  applied _ := countP_applied? r

/-! ### Runs -/

def registerAll (r : DocumentStyles) (fs : List Format) : DocumentStyles := fs.foldl (fun r f => (r.register f).2) r

theorem formats_registerAll (fs : List Format) : (r.registerAll fs).formats = r.formats.registerAll fs := by
  induction fs generalizing r with
  | nil => rfl
  | cons f fs ih => exact ih (r.register f).2

/-- The formats of a new document are those of a registry in which the integer format comes first. -/
theorem formats_run (fs : List Format) :
    (({} : DocumentStyles).registerAll fs).formats = ({} : Registry Format).registerAll (integerFormat :: fs) :=
  formats_registerAll {} fs

theorem id_run (fs : List Format) (f : Format) :
    ((({} : DocumentStyles).registerAll fs).register f).1 = (integerFormat :: fs ++ [f]).eraseDups.idxOf f := by
  rw [register, formats_run]
  exact Registry.index_registerAll _ f

theorem size_run (fs : List Format) :
    (({} : DocumentStyles).registerAll fs).size = (integerFormat :: fs).eraseDups.length := by
  rw [size, formats_run, Registry.size, Registry.entries_registerAll]

/-- For every run on a new document: its references are sound, all ids that it gives out have a visible style, and
the format of the code for integers has the id zero. -/
theorem references_sound (fs : List Format) :
    SoundReferences (({} : DocumentStyles).registerAll fs).toElements (({} : DocumentStyles).registerAll fs).size
      ∧ (∀ before f behind, fs = before ++ f :: behind →
        ((({} : DocumentStyles).registerAll before).register f).1 < (({} : DocumentStyles).registerAll fs).size)
      ∧ ∀ f, Format.parse "0" = .ok f → ((({} : DocumentStyles).registerAll fs).register f).1 = 0 := by
  refine ⟨soundReferences _, ?_, ?_⟩
  · rintro before f behind rfl
    have hmem : f ∈ (integerFormat :: before ++ [f]).eraseDups :=
      List.mem_eraseDups.2 (List.mem_append_right _ List.mem_cons_self)
    have hprefix := eraseDups_prefix_append (integerFormat :: before ++ [f]) behind
    rw [id_run, size_run]
    refine Nat.lt_of_lt_of_le (List.idxOf_lt_length_of_mem hmem) ?_
    simpa using hprefix.length_le
  · intro f hf
    have hinteger : Format.parse "0" = .ok integerFormat := by decide +kernel
    rw [hinteger] at hf
    cases hf
    rw [id_run, List.cons_append, List.eraseDups_cons, List.idxOf_cons_self]

/-- A format with a text branch between two branches that have styles. -/
def withTextBranch : Format :=
  { integerFormat with branches := [⟨.againstZero .lessThan, {}⟩, ⟨.isText, {}⟩, ⟨.againstZero .equal, {}⟩] }

theorem references_sound_withTextBranch :
    SoundReferences (({} : DocumentStyles).registerAll [withTextBranch]).toElements 2
      ∧ (({} : DocumentStyles).registerAll [withTextBranch]).toElements.map name?
        = [some "N0", some "N1P0", some "N1P2", some "N1"]
      ∧ (({} : DocumentStyles).register withTextBranch).1 < 2
      ∧ Format.parse "0" = .ok integerFormat
      ∧ ((({} : DocumentStyles).registerAll [withTextBranch]).register integerFormat).1 = 0 := by
  have hsize : (({} : DocumentStyles).registerAll [withTextBranch]).size = 2 := by decide +kernel
  have hinteger : Format.parse "0" = .ok integerFormat := by decide +kernel
  obtain ⟨hsound, hids, hzero⟩ := references_sound [withTextBranch]
  have hid := hids [] withTextBranch [] rfl
  rw [hsize] at hsound hid
  exact ⟨hsound, by decide +kernel, hid, hinteger, hzero integerFormat hinteger⟩

end DocumentStyles

end CellFormat.OpenDocument
