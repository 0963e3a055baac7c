import TrainKernel.User.PathSplitting

/-!
# Room in an ebook

An ebook has room for a tenth of the nodes of a path, but each reversal takes an enstruction, and
the loop over the path does not look whether there is one left.
-/

namespace TrainKernel.User

variable {Node : Type}

/-- How often the path is reversed between its ends. -/
def PathBuffer.turnCount (pb : PathBuffer Node) : Nat :=
  ((List.range pb.length.toNat).filter pb.turnsAt).length

variable [DecidableEq Node]

/-- Nothing is written outside of the book, and the result is a number of enstructions or -1. -/
def StaysInBook (track : Track Node) (pb : PathBuffer Node) (book : Ebook Node) : Prop :=
  ∃ count book', makeEbook track pb book = .ok (count, book') ∧
    (1 ≤ count ∧ count ≤ maxEbookLength ∨ count = -1)

variable {track : Track Node} {pb : PathBuffer Node} {book : Ebook Node}
variable {pages : List (Page Node)} {page : Page Node} {i rounds : Nat}

omit [DecidableEq Node] in
theorem newEnstruction_full (hFull : book.length = maxEbookLength) (id : Int)
    (togo : Position Node) (node : Option Node) (turnop : Int) :
    newEnstruction book id togo node turnop = .error .outOfBounds := by
  rw [newEnstruction, if_neg (by omega)]

theorem Made.length_eq (h : Made track pb i book pages page) : book.length = pages.length + 1 := by
  rw [h.shows.length_eq, List.length_append, List.length_singleton]
  rfl

theorem Made.turns_eq (h : Made track pb i book pages page) :
    ((List.range i).filter pb.turnsAt).length = pages.length := by
  have hPages := h.splits.length_pages
  rw [List.length_append, List.length_singleton] at hPages
  omega

/-- With too many reversals the loop comes to one for which there is no enstruction. -/
theorem makeEbookLoop_full (hLength : pb.length ≤ maxPathLength)
    (hEnd : i + rounds + 1 = pb.length.toNat) (hi : 0 < i) (hRoom : pages.length < maxEbookLength)
    (hMade : Made track pb i book pages page)
    (hMany : maxEbookLength ≤ ((List.range (i + rounds)).filter pb.turnsAt).length) :
    makeEbookLoop track pb rounds i (pages.length + 1) book = .error .outOfBounds := by
  induction rounds generalizing i book pages page with
  | zero =>
    rw [Nat.add_zero, hMade.turns_eq] at hMany
    omega
  | succ rounds ih =>
    have hEntry : lookahead track (pb.tracknodes i) (pb.tracknodes (i + 1)) =
        (pb.entry track i).2 := (if_pos (by omega)).symm
    have hRounds : i + (rounds + 1) = i + 1 + rounds := by
      omega
    rw [hRounds] at hMany
    rw [makeEbookLoop, hEntry]
    by_cases hReverse : pb.reverse i = true
    · have hTurns : pb.turnsAt i = true := by
        rw [PathBuffer.turnsAt]
        exact decide_eq_true ⟨hi, by omega, hReverse⟩
      obtain ⟨book₁, hTogo, hMade₁⟩ := hMade.setTogo hRoom (pb.tracknodes i)
      rw [if_pos hReverse, hTogo]
      rcases Nat.lt_or_ge (pages.length + 1) maxEbookLength with hNext | hFull
      · obtain ⟨book₂, hNew, hMade₂⟩ := hMade₁.reverse hNext hTurns rfl
        have hRest := ih (by omega) (by omega : 0 < i + 1) (by simpa using hNext) hMade₂ hMany
        rw [List.length_append, List.length_singleton, Int.natCast_add, Int.natCast_one] at hRest
        exact (congrArg (· >>= _) hNew).trans hRest
      · have hLast : book₁.length = maxEbookLength := by
          rw [hMade₁.length_eq]
          omega
        exact congrArg (· >>= _) (newEnstruction_full hLast ..)
    · have hOn : pb.turnsAt i = false := by
        rw [PathBuffer.turnsAt]
        exact decide_eq_false fun hAll => hReverse hAll.2.2
      obtain ⟨book₁, hAdd, hMade₁⟩ := hMade.addNode hRoom (by omega) hOn
      rw [if_neg hReverse]
      exact (congrArg (· >>= _) hAdd).trans
        (ih (by omega) (by omega : 0 < i + 1) hRoom hMade₁ hMany)

theorem makeEbook_full (hShort : 2 ≤ pb.length) (hLength : pb.length ≤ maxPathLength)
    (hMany : maxEbookLength ≤ pb.turnCount) (book : Ebook Node) :
    makeEbook track pb book = .error .outOfBounds := by
  obtain ⟨n, hCount⟩ : ∃ n, pb.length.toNat = n + 2 := ⟨pb.length.toNat - 2, by omega⟩
  have hEmpty : (initEbook book).Shows [] := ⟨rfl, fun k p hp => by simp at hp⟩
  have hRounds : (pb.length - 2).toNat = n := by
    omega
  have hOn : pb.turnsAt (n + 1) = false := by
    rw [PathBuffer.turnsAt]
    exact decide_eq_false fun hAll => by omega
  obtain ⟨book₁, hNew, hMade⟩ := newEnstruction_made track hEmpty
    (by omega : 1 < pb.length.toNat)
  rw [PathBuffer.turnCount, hCount, filter_range_succ, hOn, if_neg Bool.false_ne_true,
    List.append_nil, Nat.add_comm] at hMany
  have hLoop : makeEbookLoop track pb n 1 1 book₁ = .error .outOfBounds := by
    refine makeEbookLoop_full hLength (by omega) Nat.one_pos ?_ hMade hMany
    exact (by decide : 0 < maxEbookLength)
  rw [makeEbook, if_neg (by omega), hRounds]
  dsimp only
  rw [hNew]
  change (makeEbookLoop track pb n 1 1 book₁ >>= _) = _
  rw [hLoop]
  rfl

/-- The book has room for a path exactly if it is reversed less often than there are
enstructions; a path buffer holds `maxPathLength` nodes at most. -/
theorem stays_in_book_iff (track : Track Node) (pb : PathBuffer Node) (hShort : 2 ≤ pb.length)
    (hLength : pb.length ≤ maxPathLength) (book : Ebook Node) :
    StaysInBook track pb book ↔ pb.turnCount < maxEbookLength := by
  constructor
  · rintro ⟨count, book', hBook, -⟩
    by_contra hMany
    rw [makeEbook_full hShort hLength (not_lt.mp hMany)] at hBook
    cases hBook
  · intro hFew
    obtain ⟨book', pages, hBook, -, hSplits, -⟩ :
        ∃ (book' : Ebook Node) (pages : List (Page Node)),
          makeEbook track pb book = .ok (pages.length, book') ∧ _ :=
      makeEbook_splits hShort hLength hFew book
    have hPages := hSplits.length_pages
    have hMost := hSplits.length_pages_le le_rfl hFew
    exact ⟨pages.length, book', hBook, Or.inl ⟨by omega, by omega⟩⟩

theorem stays_in_book_return : StaysInBook junction returnRoute blankBook :=
  (stays_in_book_iff junction returnRoute (by decide) (by decide) blankBook).mpr (by decide)

/-- To and fro between a sensor and its reverse. -/
def shuttle : PathBuffer Nat := ⟨66, 16, fun i => some (i % 2), fun _ => true⟩

theorem not_stays_in_book : ¬∀ pb : PathBuffer Nat, 2 ≤ pb.length → pb.length ≤ maxPathLength →
    ∀ book, StaysInBook junction pb book := by
  intro hAll
  obtain ⟨count, book', hBook, -⟩ := hAll shuttle (by decide) (by decide) blankBook
  rw [makeEbook_full (by decide) (by decide) (by decide)] at hBook
  cases hBook

end TrainKernel.User
