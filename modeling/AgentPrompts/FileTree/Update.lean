import AgentPrompts.FileTree
import AgentPrompts.Members

/-! # Updates of file trees

What stands in a tree after an entry has been put into a directory of it: the entry where
it was put, and elsewhere what stood there before. An entry that stands there already
leaves the tree as it is.
-/

namespace AgentPrompts.Entry

theorem lookup_insertChild {name : String} {cs : List (String × Entry)}
    (h : cs.lookup name = none) (e : Entry) (other : String) :
    (insertChild name e cs).lookup other = if other = name then some e else cs.lookup other := by
  induction cs with
  | nil => simp [insertChild, Members.lookup_member]
  | cons c cs ih => grind [insertChild, Members.lookup_member]

theorem lookup_replaceChild (name : String) (e : Entry) (cs : List (String × Entry))
    (other : String) :
    (replaceChild name e cs).lookup other =
      if other = name then (cs.lookup name).map fun _ => e else cs.lookup other := by
  induction cs with
  | nil => simp [replaceChild]
  | cons c cs ih => grind [replaceChild, Members.lookup_member]

theorem replaceChild_of_lookup {name : String} {e : Entry} {cs : List (String × Entry)}
    (h : cs.lookup name = some e) : replaceChild name e cs = cs := by
  induction cs with
  | nil => cases h
  | cons c cs ih => grind [replaceChild, Members.lookup_member]

theorem lookup_setChild (name : String) (e : Entry) (cs : List (String × Entry)) (other : String) :
    (setChild name e cs).lookup other = if other = name then some e else cs.lookup other := by
  unfold setChild
  cases h : cs.lookup name with
  | none => simpa using lookup_insertChild h e other
  | some old => simp [lookup_replaceChild, h]

theorem get?_append (e : Entry) (l m : Location) :
    e.get? (l ++ m) = (e.get? l).bind (·.get? m) := by
  induction l generalizing e with
  | nil => rfl
  | cons name names ih =>
    cases h : e.children.lookup name with
    | none => simp [get?, h]
    | some c => simp [get?, h, ih]

theorem put_of_get? {e new : Entry} {l : Location} (h : e.get? l = some new) :
    put new l e = e := by
  induction l generalizing e with
  | nil => exact (Option.some_inj.mp h).symm
  | cons name l ih =>
    cases e with
    | file content => simp [get?, children] at h
    | directory cs =>
      rw [get?, children, Option.bind_eq_some_iff] at h
      obtain ⟨c, hc, hnew⟩ := h
      rw [put, hc, Option.getD_some, ih hnew, setChild, hc, Option.isSome_some, if_pos rfl,
        replaceChild_of_lookup hc]

theorem get?_put {e : Entry} {l : Location} {cs : List (String × Entry)}
    (h : e.get? l = some (directory cs)) (name : String) (new : Entry) :
    (put new (l ++ [name]) e).get? (l ++ [name]) = some new := by
  induction l generalizing e with
  | nil =>
    obtain rfl : e = directory cs := by simpa [get?] using h
    simp [put, get?, children, lookup_setChild]
  | cons first l ih =>
    cases e with
    | file content => simp [get?, children] at h
    | directory ds =>
      cases hd : ds.lookup first with
      | none => simp [get?, children, hd] at h
      | some d =>
        have hd' : d.get? l = some (directory cs) := by simpa [get?, children, hd] using h
        simpa [put, get?, children, lookup_setChild, hd] using ih hd'

theorem node_get?_put {e : Entry} {l : Location} {cs : List (String × Entry)}
    (h : e.get? l = some (directory cs)) {name : String} (new : Entry) {m : Location}
    (hm : ¬ (l ++ [name]).isPrefixOf m) :
    ((put new (l ++ [name]) e).get? m).map node = (e.get? m).map node := by
  induction l generalizing e m with
  | nil =>
    obtain rfl : e = directory cs := by simpa [get?] using h
    cases m with
    | nil => rfl
    | cons first m =>
      have hne : ¬ first = name := by rintro rfl; simp at hm
      simp [put, get?, children, lookup_setChild, hne]
  | cons first l ih =>
    cases e with
    | file content => simp [get?, children] at h
    | directory ds =>
      cases hd : ds.lookup first with
      | none => simp [get?, children, hd] at h
      | some d =>
        have hd' : d.get? l = some (directory cs) := by simpa [get?, children, hd] using h
        cases m with
        | nil => rfl
        | cons next m =>
          by_cases hn : next = first
          · subst hn
            have hm' : ¬ (l ++ [name]).isPrefixOf m := by simpa using hm
            simpa [put, get?, children, lookup_setChild, hd] using ih hd' hm'
          · simp [put, get?, children, lookup_setChild, hn]

end AgentPrompts.Entry
