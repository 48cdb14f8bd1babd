import CellFormat.Xml.Element
/-!
# The elements in an element

An element with all elements below it, in the order in which their tags open. What is said of the tag and the
attributes of each of them is kept by all that a reader does to an open element.
-/

namespace CellFormat.Xml.Element

mutual

def nodes : Element → List Element
  | ⟨tag, attributes, text, children⟩ => ⟨tag, attributes, text, children⟩ :: nodesAll children

def nodesAll : List Element → List Element
  | [] => []
  | e :: es => nodes e ++ nodesAll es

end

theorem nodes_eq (e : Element) : e.nodes = e :: nodesAll e.children := by
  obtain ⟨tag, attributes, text, children⟩ := e
  rw [nodes]

theorem nodesAll_of_childless {es : List Element} (h : ∀ e ∈ es, e.children = []) : nodesAll es = es := by
  induction es with
  | nil => rfl
  | cons e es ih =>
      have hrest := ih fun x hx => h x (List.mem_cons_of_mem _ hx)
      rw [nodesAll, nodes_eq, h e List.mem_cons_self, hrest, nodesAll, List.singleton_append]

theorem nodesAll_append (left right : List Element) : nodesAll (left ++ right) = nodesAll left ++ nodesAll right := by
  induction left with
  | nil => rfl
  | cons e left ih => rw [List.cons_append, nodesAll, ih, nodesAll, List.append_assoc]

/-! ### Tags -/

/-- Whether all elements in an element have tags and attributes like this. -/
def HasTags (p : String → Attributes → Prop) (e : Element) : Prop := ∀ node ∈ e.nodes, p node.tag node.attributes

variable {p : String → Attributes → Prop} {e child : Element}

theorem hasTags_iff :
    HasTags p e ↔ p e.tag e.attributes ∧ ∀ node ∈ nodesAll e.children, p node.tag node.attributes := by
  rw [HasTags, nodes_eq, List.forall_mem_cons]

theorem hasTags_of_childless (h : p e.tag e.attributes) (hchildren : e.children = []) : HasTags p e := by
  refine hasTags_iff.2 ⟨h, ?_⟩
  rw [hchildren]
  exact nofun

theorem HasTags.appendText (h : HasTags p e) (text : String) : HasTags p (e.appendText text) := by
  have hsame := hasTags_iff.1 h
  exact hasTags_iff.2 hsame

theorem HasTags.addChild (h : HasTags p e) (hchild : HasTags p child) : HasTags p (e.addChild child) := by
  obtain ⟨htag, hbelow⟩ := hasTags_iff.1 h
  refine hasTags_iff.2 ⟨htag, fun node hnode => ?_⟩
  have hnodes : nodesAll (e.addChild child).children = nodesAll e.children ++ child.nodes := by
    rw [Element.addChild, nodesAll_append, nodesAll, nodesAll, List.append_nil]
  rw [hnodes, List.mem_append] at hnode
  rcases hnode with hnode | hnode
  · exact hbelow node hnode
  · exact hchild node hnode

end CellFormat.Xml.Element
