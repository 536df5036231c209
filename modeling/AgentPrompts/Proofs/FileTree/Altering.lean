import Mathlib.Data.String.Basic
import AgentPrompts.Proofs.FileTree.Extends

/-! # Alterations of file trees

An entry is altered at a location by a function, after the directories missing above it
have been made. To put an entry is to alter by a constant function, and to make a directory
with all its parents is to alter by the identity. Directories that are made and files that
are written can so be taken in either order, unless one file stands in the way of what
else is made.
-/

namespace AgentPrompts

namespace Entry

variable {name other : String} {e : Entry} {l m : Location} {f g : Entry → Entry}

theorem insertChild_comm (h : name ≠ other) (e e' : Entry) (cs : List (String × Entry)) :
    insertChild name e (insertChild other e' cs) =
      insertChild other e' (insertChild name e cs) := by
  induction cs with
  | nil => grind [insertChild]
  | cons c cs ih => grind [insertChild]

theorem replaceChild_comm (h : name ≠ other) (e e' : Entry) (cs : List (String × Entry)) :
    replaceChild name e (replaceChild other e' cs) =
      replaceChild other e' (replaceChild name e cs) := by
  induction cs with
  | nil => rfl
  | cons c cs ih => grind [replaceChild]

theorem replaceChild_insertChild (h : name ≠ other) (e e' : Entry) (cs : List (String × Entry)) :
    replaceChild name e (insertChild other e' cs) =
      insertChild other e' (replaceChild name e cs) := by
  induction cs with
  | nil => grind [replaceChild, insertChild]
  | cons c cs ih => grind [replaceChild, insertChild]

theorem setChild_comm (h : name ≠ other) (e e' : Entry) (cs : List (String × Entry)) :
    setChild name e (setChild other e' cs) = setChild other e' (setChild name e cs) := by
  have hname := lookup_setChild other e' cs name
  have hother := lookup_setChild name e cs other
  rw [if_neg h] at hname
  rw [if_neg h.symm] at hother
  rw [setChild, hname, setChild.eq_def other e' (setChild name e cs), hother]
  unfold setChild
  split <;> split
  · exact replaceChild_comm h e e' cs
  · exact replaceChild_insertChild h e e' cs
  · exact (replaceChild_insertChild h.symm e' e cs).symm
  · exact insertChild_comm h e e' cs

theorem replaceChild_replaceChild (name : String) (e e' : Entry) (cs : List (String × Entry)) :
    replaceChild name e (replaceChild name e' cs) = replaceChild name e cs := by
  induction cs with
  | nil => rfl
  | cons c cs ih => grind [replaceChild]

theorem replaceChild_inserted {cs : List (String × Entry)} (h : cs.lookup name = none)
    (e e' : Entry) : replaceChild name e (insertChild name e' cs) = insertChild name e cs := by
  induction cs with
  | nil => simp [replaceChild, insertChild]
  | cons c cs ih => grind [replaceChild, insertChild, Members.lookup_member]

theorem setChild_setChild (name : String) (e e' : Entry) (cs : List (String × Entry)) :
    setChild name e (setChild name e' cs) = setChild name e cs := by
  have hset := lookup_setChild name e' cs name
  rw [if_pos rfl] at hset
  rw [setChild, hset, Option.isSome_some, if_pos rfl]
  cases h : cs.lookup name with
  | none => simpa [setChild, h] using replaceChild_inserted h e e'
  | some old => simpa [setChild, h] using replaceChild_replaceChild name e e' cs

/-- Alters what stands at a location, which is an empty directory when nothing stands
there. Below a file nothing is altered. -/
def alter (f : Entry → Entry) : Location → Entry → Entry
  | [], e => f e
  | _ :: _, file content => file content
  | name :: names, directory cs =>
    directory (setChild name (alter f names ((cs.lookup name).getD (directory []))) cs)

theorem put_eq_alter (new : Entry) (l : Location) (e : Entry) :
    put new l e = alter (fun _ => new) l e := by
  induction l generalizing e with
  | nil => rfl
  | cons name l ih =>
    cases e with
    | file content => rfl
    | directory cs => rw [put, alter, ih]

theorem getD_get?_empty (l : Location) :
    ((directory []).get? l).getD (directory []) = directory [] := by
  cases l <;> rfl

theorem alter_congr (h : f ((e.get? l).getD (directory [])) = g ((e.get? l).getD (directory []))) :
    alter f l e = alter g l e := by
  induction l generalizing e with
  | nil => exact h
  | cons name l ih =>
    cases e with
    | file content => rfl
    | directory cs =>
      have hchild : alter f l ((cs.lookup name).getD (directory [])) =
          alter g l ((cs.lookup name).getD (directory [])) := by
        apply ih
        cases hc : cs.lookup name with
        | none => simpa [get?, children, hc, getD_get?_empty] using h
        | some c => simpa [get?, children, hc] using h
      rw [alter, alter, hchild]

theorem alter_id_of_isSome (h : (e.get? l).isSome) : alter id l e = e := by
  obtain ⟨old, hold⟩ := Option.isSome_iff_exists.mp h
  have hput : alter id l e = alter (fun _ => old) l e := alter_congr (by rw [hold]; rfl)
  rw [hput, ← put_eq_alter, put_of_get? hold]

theorem alter_id_of_none (h : e.get? l = none) : alter id l e = put (directory []) l e := by
  rw [put_eq_alter]
  exact alter_congr (by rw [h]; rfl)

/-- Alterations commute when one that is made above the other, or in its place, is by the
identity. -/
theorem alter_comm (hf : l <+: m → f = id) (hg : m <+: l → g = id) (e : Entry) :
    alter f l (alter g m e) = alter g m (alter f l e) := by
  induction l generalizing m e with
  | nil =>
    obtain rfl := hf List.nil_prefix
    rfl
  | cons name l ih =>
    cases m with
    | nil =>
      obtain rfl := hg List.nil_prefix
      rfl
    | cons other m =>
      cases e with
      | file content => rfl
      | directory cs =>
        simp only [alter, lookup_setChild]
        by_cases h : name = other
        · subst h
          have hchild := ih (m := m) (fun hp => hf (List.prefix_cons_inj name |>.mpr hp))
            (fun hp => hg (List.prefix_cons_inj name |>.mpr hp))
          simp only [if_pos, Option.getD_some, setChild_setChild, hchild]
        · rw [if_neg h, if_neg (Ne.symm h), setChild_comm h]

end Entry

inductive Change where
  | directory (location : Location)
  | file (location : Location) (content : List UInt8)

namespace Change

open Location

variable {c c' : Change} {d d' : Disk} {l : Location} {parts : List String} {path : String}

def location : Change → Location
  | directory l => l
  | file l _ => l

def effect : Change → Entry → Entry
  | directory _ => id
  | file _ content => fun _ => .file content

def apply (d : Disk) (c : Change) : Disk :=
  { d with root := Entry.alter c.effect c.location d.root }

def applyAll (d : Disk) (cs : List Change) : Disk := cs.foldl apply d

/-- A change that could have been the last at its location. -/
def Shows (d : Disk) : Change → Prop
  | directory l => d.node? l = some .directory
  | file l _ => ∃ content, d.node? l = some (.file content)

def Overlap (c c' : Change) : Prop := ∃ l x y, c = file l x ∧ c' = file l y

theorem apply_file (d : Disk) (l : Location) (content : List UInt8) :
    apply d (file l content) = d.put l (.file content) := by
  rw [Disk.put, Entry.put_eq_alter]
  rfl

theorem apply_directory_of_isSome (h : (d.node? l).isSome) : apply d (directory l) = d := by
  rw [Disk.node?, Option.isSome_map] at h
  rw [apply, effect, location, Entry.alter_id_of_isSome h]

theorem apply_directory_of_none (h : d.node? l = none) :
    apply d (directory l) = d.put l (.directory []) := by
  rw [Disk.node?, Option.map_eq_none_iff] at h
  rw [apply, effect, location, Entry.alter_id_of_none h]
  rfl

theorem Shows.isSome (h : c.Shows d) : (d.node? c.location).isSome := by
  cases c with
  | directory l =>
    have hl : d.node? l = some .directory := h
    rw [location, hl]
    rfl
  | file l content =>
    obtain ⟨content', hl⟩ := h
    rw [location, hl]
    rfl

theorem Shows.extend (h : c.Shows d) (he : d.Extends d') : c.Shows d' := by
  cases c with
  | directory l => exact he.directory l h
  | file l content =>
    obtain ⟨content', hl⟩ := h
    exact he.file l content' hl

theorem effect_eq_id (hc : c.Shows d) (hc' : c'.Shows d) (hne : ¬ Overlap c c')
    (hp : c.location <+: c'.location) : c.effect = id := by
  cases c with
  | directory l => rfl
  | file l content =>
    exfalso
    obtain ⟨shown, hfile⟩ := hc
    obtain ⟨below, hbelow⟩ := hp
    rw [location] at hbelow
    by_cases hnil : below = []
    · subst hnil
      cases c' with
      | directory m =>
        obtain rfl : l = m := by simpa [location] using hbelow
        cases hfile.symm.trans hc'
      | file m content' =>
        obtain rfl : l = m := by simpa [location] using hbelow
        exact hne ⟨l, content, content', rfl, rfl⟩
    · have hdir := Disk.node?_of_append hnil (hbelow ▸ hc'.isSome)
      rw [hfile] at hdir
      cases hdir

theorem apply_comm (h : c.location <+: c'.location → c.effect = id)
    (h' : c'.location <+: c.location → c'.effect = id) (d : Disk) :
    apply (apply d c) c' = apply (apply d c') c := by
  simp only [apply, Entry.alter_comm h h']

theorem applyAll_cons (d : Disk) (c : Change) (cs : List Change) :
    applyAll d (c :: cs) = applyAll (apply d c) cs := rfl

theorem applyAll_append (d : Disk) (cs cs' : List Change) :
    applyAll d (cs ++ cs') = applyAll (applyAll d cs) cs' := List.foldl_append

/-- A change can be made before or after a list of changes when it can be made before or
after each of them. -/
theorem applyAll_apply {cs : List Change}
    (h : ∀ c' ∈ cs, ∀ d, apply (apply d c) c' = apply (apply d c') c) (d : Disk) :
    applyAll (apply d c) cs = apply (applyAll d cs) c := by
  induction cs generalizing d with
  | nil => rfl
  | cons c' cs ih =>
    obtain ⟨hc', hrest⟩ := List.forall_mem_cons.mp h
    rw [applyAll_cons, hc', ih hrest, applyAll_cons]

theorem applyAll_comm {cs cs' : List Change}
    (h : ∀ c ∈ cs, ∀ c' ∈ cs', ∀ d, apply (apply d c) c' = apply (apply d c') c) (d : Disk) :
    applyAll (applyAll d cs) cs' = applyAll (applyAll d cs') cs := by
  induction cs generalizing d with
  | nil => rfl
  | cons c cs ih =>
    obtain ⟨hc, hrest⟩ := List.forall_mem_cons.mp h
    rw [applyAll_cons, ih hrest, applyAll_apply hc, applyAll_cons]

theorem applyAll_stops (h : (d.node? l).isSome) : applyAll d ((stops l parts).map directory) =
    applyAll d ((stops l parts).tail.map directory) := by
  cases parts <;>
    rw [stops, List.map_cons, applyAll_cons, apply_directory_of_isSome h, List.tail_cons]

/-- When nothing is in the way, making directories along a path makes its stops. -/
theorem makeAlong_eq_applyAll (h : d.makeAlong l parts = (d', none)) :
    d' = applyAll d ((stops l parts).map directory) := by
  induction parts generalizing d l with
  | nil =>
    simp only [Disk.makeAlong] at h
    split at h
    next hl =>
      obtain ⟨rfl, _⟩ := Prod.mk.inj h
      rw [applyAll_stops (by rw [hl]; rfl)]
      rfl
    next => cases h
    next => cases h
  | cons part parts ih =>
    rcases Disk.makeAlong_cases d l part parts with ⟨o, he⟩ | ⟨hl, _, he | ⟨hn, hnone, he⟩⟩
    · rw [he] at h
      cases h
    · rw [applyAll_stops (by rw [hl]; rfl), stops, List.tail_cons]
      exact ih (he ▸ h)
    · have hput := apply_directory_of_none hnone
      have hthere : ((apply d (directory (l ++ [part]))).node? (l ++ [part])).isSome := by
        rw [hput, Disk.node?_put hl (by simp [hnone]) rfl, if_pos rfl]
        rfl
      rw [ih (he ▸ h), ← hput, applyAll_stops hthere, applyAll_stops (by rw [hl]; rfl), stops,
        List.tail_cons, step_of_isName hn]
      cases parts <;> rfl

theorem makeDirectory_eq_applyAll (h : d.makeDirectory path = (d', none)) :
    d' = applyAll d ((stops (d.start path) (pathParts path)).map directory) := by
  have hnone : (d.makeDirectory path).2 = none := by rw [h]
  have hmake := (Disk.makeDirectory_inv hnone).2.2
  rw [h] at hmake
  exact makeAlong_eq_applyAll hmake

end Change

end AgentPrompts
