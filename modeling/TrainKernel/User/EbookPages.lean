import Mathlib.Data.List.Chain
import TrainKernel.User.Ebook

/-!
# The pages of an ebook

An ebook as a list of pages, each the list of what an enstruction's arrays hold up to its length.
The splitting of a path adds to the last page or starts a new one.
-/

namespace TrainKernel.User

open Function

variable {Node : Type}

/-- An enstruction without what is behind the end of its arrays; an entry is a node with its turnout
operation. -/
structure Page (Node : Type) where
  id : Int
  togo : Option Node
  entries : List (Option Node × Int)

def Enstruction.page (ent : Enstruction Node) : Page Node where
  id := ent.id
  togo := ent.togo.node
  entries := (List.range ent.length.toNat).map fun j => (ent.tracknodes j, ent.turnops j)

def Ebook.pages (book : Ebook Node) : List (Page Node) :=
  (List.range book.length.toNat).map fun k => (book.enstructs k).page

structure Enstruction.Shows (ent : Enstruction Node) (page : Page Node) : Prop where
  id_eq : ent.id = page.id
  togo_eq : ent.togo.node = page.togo
  length_eq : ent.length = page.entries.length
  entries : ∀ j e, page.entries[j]? = some e → (ent.tracknodes j, ent.turnops j) = e

structure Ebook.Shows (book : Ebook Node) (pages : List (Page Node)) : Prop where
  length_eq : book.length = pages.length
  enstructs : ∀ k p, pages[k]? = some p → (book.enstructs k).Shows p

variable {book : Ebook Node} {pages : List (Page Node)} {page : Page Node} {node : Option Node}
variable {turnop id : Int}

theorem Enstruction.Shows.page_eq {ent : Enstruction Node} (h : ent.Shows page) :
    ent.page = page := by
  have hEntries : ent.page.entries = page.entries := by
    apply List.ext_getElem
    · simp [Enstruction.page, h.length_eq]
    · intro j hLeft hj
      have hEntry := h.entries j _ (List.getElem?_eq_getElem hj)
      simpa [Enstruction.page] using hEntry
  cases page with
  | mk id togo entries =>
    rw [Enstruction.page, Page.mk.injEq]
    exact ⟨h.id_eq, h.togo_eq, hEntries⟩

theorem Ebook.Shows.pages_eq (h : book.Shows pages) : book.pages = pages := by
  apply List.ext_getElem
  · simp [Ebook.pages, h.length_eq]
  · intro k hLeft hk
    have hPage := (h.enstructs k _ (List.getElem?_eq_getElem hk)).page_eq
    simpa [Ebook.pages] using hPage

theorem getElem?_concat {α : Type} {l : List α} {x y : α} {k : Nat}
    (h : (l ++ [x])[k]? = some y) : l[k]? = some y ∧ k < l.length ∨ k = l.length ∧ x = y := by
  by_cases hk : k < l.length
  · rw [List.getElem?_append_left hk] at h
    exact Or.inl ⟨h, hk⟩
  · rw [List.getElem?_append_right (by omega), List.getElem?_singleton] at h
    split_ifs at h with hLast
    exact Or.inr ⟨by omega, Option.some.inj h⟩

theorem Ebook.shows_concat_iff : book.Shows (pages ++ [page]) ↔
    book.length = pages.length + 1 ∧ (∀ k p, pages[k]? = some p → (book.enstructs k).Shows p) ∧
      (book.enstructs pages.length).Shows page := by
  constructor
  · rintro ⟨hLength, hShows⟩
    refine ⟨by simpa using hLength, fun k p hp => hShows k p ?_, hShows _ page (by simp)⟩
    have hk := (List.getElem?_eq_some_iff.mp hp).1
    rwa [List.getElem?_append_left hk]
  · rintro ⟨hLength, hEarlier, hLast⟩
    refine ⟨by simpa using hLength, fun k p hp => ?_⟩
    obtain ⟨hp, -⟩ | ⟨rfl, rfl⟩ := getElem?_concat hp
    · exact hEarlier k p hp
    · exact hLast

/-- Only the last enstruction is written. -/
theorem Ebook.Shows.update_last (h : book.Shows (pages ++ [page])) {ent : Enstruction Node}
    {page' : Page Node} (hEnt : ent.Shows page') :
    ({ book with enstructs := update book.enstructs pages.length ent } : Ebook Node).Shows
      (pages ++ [page']) := by
  obtain ⟨hLength, hEarlier, -⟩ := Ebook.shows_concat_iff.mp h
  refine Ebook.shows_concat_iff.mpr ⟨hLength, fun k p hp => ?_, ?_⟩
  · have hk := (List.getElem?_eq_some_iff.mp hp).1
    dsimp only
    rw [update_of_ne (by omega)]
    exact hEarlier k p hp
  · dsimp only
    rwa [update_self]

theorem newEnstruction_shows (h : book.Shows pages) (hRoom : pages.length < maxEbookLength)
    (togo : Position Node) :
    ∃ book', newEnstruction book id togo node turnop = .ok book' ∧
      book'.Shows (pages ++ [⟨id, togo.node, [(node, turnop)]⟩]) := by
  have hLength := h.length_eq
  rw [newEnstruction, if_pos (by omega), hLength, Int.toNat_natCast]
  refine ⟨_, rfl, Ebook.shows_concat_iff.mpr ⟨rfl, fun k p hp => ?_, ?_⟩⟩
  · have hk := (List.getElem?_eq_some_iff.mp hp).1
    dsimp only
    rw [update_of_ne (by omega)]
    exact h.enstructs k p hp
  · dsimp only
    rw [update_self]
    refine ⟨rfl, rfl, rfl, fun j e he => ?_⟩
    obtain ⟨hj, rfl⟩ := List.getElem?_eq_some_iff.mp he
    obtain rfl : j = 0 := Nat.lt_one_iff.mp hj
    rfl

theorem setTogo_shows (h : book.Shows (pages ++ [page])) (hRoom : pages.length < maxEbookLength) :
    ∃ book', setTogo book node = .ok book' ∧
      book'.Shows (pages ++ [{ page with togo := node }]) := by
  obtain ⟨hLength, -, hLast⟩ := Ebook.shows_concat_iff.mp h
  have hIndex : (book.length - 1).toNat = pages.length := by
    omega
  rw [setTogo, if_pos (by omega), hIndex]
  exact ⟨_, rfl, h.update_last ⟨hLast.id_eq, rfl, hLast.length_eq, hLast.entries⟩⟩

theorem addNode_shows (h : book.Shows (pages ++ [page])) (hRoom : pages.length < maxEbookLength)
    (hEnd : page.entries.length < maxPathLength) :
    ∃ book', addNode book node turnop = .ok book' ∧
      book'.Shows (pages ++ [{ page with entries := page.entries ++ [(node, turnop)] }]) := by
  obtain ⟨hLength, -, hLast⟩ := Ebook.shows_concat_iff.mp h
  have hIndex : (book.length - 1).toNat = pages.length := by
    omega
  have hCount := hLast.length_eq
  rw [addNode, hIndex]
  dsimp only
  rw [if_pos (by omega), hCount, Int.toNat_natCast]
  refine ⟨_, rfl, h.update_last ⟨hLast.id_eq, hLast.togo_eq, ?_, fun j e he => ?_⟩⟩
  · simp
  · obtain ⟨he, hj⟩ | ⟨rfl, rfl⟩ := getElem?_concat he
    · dsimp only
      rw [update_of_ne (by omega), update_of_ne (by omega)]
      exact hLast.entries j e he
    · dsimp only
      rw [update_self, update_self]

end TrainKernel.User
