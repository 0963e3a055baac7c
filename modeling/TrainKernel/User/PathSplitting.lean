import TrainKernel.User.EbookPages

/-!
# A path as an ebook

`makeEbook` puts the nodes of a path one after another on pages, and starts a new page wherever the
path is reversed.
-/

namespace TrainKernel.User

variable {Node : Type}

/-- The path is reversed between its ends. -/
def PathBuffer.turnsAt (pb : PathBuffer Node) (i : Nat) : Bool :=
  0 < i ∧ i + 1 < pb.length.toNat ∧ pb.reverse i

/-- At position `i` the path goes from the branch `n` to its successor `m`. -/
structure PathBuffer.PassesBranch (pb : PathBuffer Node) (track : Track Node) (i : Nat)
    (n m : Node) : Prop where
  inside : i + 1 < pb.length.toNat
  node : pb.tracknodes i = some n
  next : pb.tracknodes (i + 1) = some m
  isBranch : track.type n = .branch
  isSuccessor : track.dest n dirStraight = some m ∨ track.dest n dirCurved = some m

/-- The positions on the path where the pages start. -/
def pageStarts : Nat → List (Page Node) → List Nat
  | _, [] => []
  | i, page :: pages => i :: pageStarts (i + page.entries.length) pages

/-- What is in an ebook that has been made of a path. -/
structure Ebook.Follows (book : Ebook Node) (track : Track Node) (pb : PathBuffer Node) :
    Prop where
  tracknodes : (book.pages.flatMap Page.entries).map Prod.fst =
    (List.range pb.length.toNat).map pb.tracknodes
  starts : pageStarts 0 book.pages = 0 :: (List.range pb.length.toNat).filter pb.turnsAt
  ids : ∀ (k : Nat) (page : Page Node), book.pages[k]? = some page → page.id = k
  togo : book.pages.IsChain fun page next => next.entries.head?.map Prod.fst = some page.togo
  last : book.pages.getLast?.map Page.togo = some (pb.tracknodes (pb.length.toNat - 1))
  branches : ∀ (i : Nat) (e : Option Node × Int) (n m : Node),
    (book.pages.flatMap Page.entries)[i]? = some e → pb.PassesBranch track i n m →
      turnopGetTracknodeIndex e.2 = track.idx n ∧
        track.dest n (if turnopGetCurve e.2 then dirCurved else dirStraight) = some m
  others : ∀ (i : Nat) (e : Option Node × Int),
    (book.pages.flatMap Page.entries)[i]? = some e →
      (¬ ∃ n m, pb.PassesBranch track i n m) → e.2 = 0

section splits

variable [DecidableEq Node] (track : Track Node) (pb : PathBuffer Node)

/-- A node of the path with its turnout operation; the last node is not left. -/
def PathBuffer.entry (i : Nat) : Option Node × Int :=
  (pb.tracknodes i, if i + 1 < pb.length.toNat then
    lookahead track (pb.tracknodes i) (pb.tracknodes (i + 1)) else 0)

/-- The pages of the first `i` nodes. -/
structure Splits (i : Nat) (pages : List (Page Node)) : Prop where
  entries : pages.flatMap Page.entries = (List.range i).map (pb.entry track)
  nonempty : ∀ page ∈ pages, page.entries ≠ []
  starts : pageStarts 0 pages = 0 :: (List.range i).filter pb.turnsAt
  ids : ∀ (k : Nat) (page : Page Node), pages[k]? = some page → page.id = k
  togo : pages.IsChain fun page next => next.entries.head?.map Prod.fst = some page.togo

/-- The book as it is after the first `i` nodes, with the page that is written last. -/
structure Made (i : Nat) (book : Ebook Node) (pages : List (Page Node)) (page : Page Node) :
    Prop where
  shows : book.Shows (pages ++ [page])
  splits : Splits track pb i (pages ++ [page])

end splits

variable {track : Track Node} {pb : PathBuffer Node} {pages : List (Page Node)}
variable {page : Page Node} {i : Nat}

theorem pageStarts_concat : pageStarts i (pages ++ [page]) =
    pageStarts i pages ++ [i + (pages.flatMap Page.entries).length] := by
  induction pages generalizing i with
  | nil => rfl
  | cons first pages ih =>
    rw [List.cons_append, pageStarts, ih, pageStarts, List.flatMap_cons, List.length_append,
      Nat.add_assoc]
    rfl

theorem length_pageStarts : (pageStarts i pages).length = pages.length := by
  induction pages generalizing i with
  | nil => rfl
  | cons first pages ih => rw [pageStarts, List.length_cons, ih, List.length_cons]

variable [DecidableEq Node]

theorem Splits.length_entries (h : Splits track pb i pages) :
    (pages.flatMap Page.entries).length = i := by
  rw [h.entries, List.length_map, List.length_range]

theorem Splits.length_pages (h : Splits track pb i pages) :
    pages.length = ((List.range i).filter pb.turnsAt).length + 1 := by
  rw [← length_pageStarts (i := 0), h.starts, List.length_cons]

theorem Splits.length_last_le (h : Splits track pb i (pages ++ [page])) :
    page.entries.length ≤ i := by
  have hLength := h.length_entries
  rw [List.flatMap_append, List.length_append, List.flatMap_singleton] at hLength
  omega

/-- A change of the last page that keeps the pages before it right. -/
theorem Splits.replace_last {page' : Page Node} {i' : Nat} (h : Splits track pb i (pages ++ [page]))
    (hId : page'.id = page.id) (hHead : page'.entries.head? = page.entries.head?)
    (hEntries : (pages ++ [page']).flatMap Page.entries = (List.range i').map (pb.entry track))
    (hTurns : (List.range i').filter pb.turnsAt = (List.range i).filter pb.turnsAt) :
    Splits track pb i' (pages ++ [page']) where
  entries := hEntries
  nonempty := by
    intro q hq
    rcases List.mem_append.mp hq with hq | hq
    · exact h.nonempty q (List.mem_append_left _ hq)
    · obtain rfl := List.mem_singleton.mp hq
      have hPage := h.nonempty page List.mem_concat_self
      rwa [Ne, ← List.head?_eq_none_iff, hHead, List.head?_eq_none_iff]
  starts := by
    rw [hTurns, ← h.starts, pageStarts_concat, pageStarts_concat]
  ids := by
    intro k q hq
    obtain ⟨hq, hk⟩ | ⟨rfl, rfl⟩ := getElem?_concat hq
    · exact h.ids k q (by rwa [List.getElem?_append_left hk])
    · rw [hId]
      exact h.ids pages.length page (by simp)
  togo := by
    have hTogo := h.togo
    rw [List.isChain_append] at hTogo ⊢
    refine ⟨hTogo.1, .singleton _, fun q hq next hNext => ?_⟩
    obtain rfl := Option.some.inj hNext
    rw [hHead]
    exact hTogo.2.2 q hq page rfl

theorem Splits.setTogo (h : Splits track pb i (pages ++ [page])) (node : Option Node) :
    Splits track pb i (pages ++ [{ page with togo := node }]) := by
  refine h.replace_last rfl rfl ?_ rfl
  rw [← h.entries, List.flatMap_append, List.flatMap_append]
  rfl

theorem filter_range_succ {f : Nat → Bool} : (List.range (i + 1)).filter f =
    (List.range i).filter f ++ if f i then [i] else [] := by
  rw [List.range_succ, List.filter_append, List.filter_singleton, Bool.cond_eq_ite]

/-- A node goes to the end of the last page. -/
theorem Splits.addNode (h : Splits track pb i (pages ++ [page])) (hOn : pb.turnsAt i = false) :
    Splits track pb (i + 1)
      (pages ++ [{ page with entries := page.entries ++ [pb.entry track i] }]) := by
  refine h.replace_last rfl ?_ ?_ ?_
  · exact List.head?_append_of_ne_nil _ (h.nonempty page List.mem_concat_self)
  · rw [List.range_succ, List.map_append, ← h.entries, List.flatMap_append, List.flatMap_append,
      List.append_assoc]
    simp
  · rw [filter_range_succ, hOn, if_neg Bool.false_ne_true, List.append_nil]

/-- A node starts the next page. -/
theorem Splits.reverse (h : Splits track pb i (pages ++ [page])) (hTurns : pb.turnsAt i = true)
    (hTogo : page.togo = pb.tracknodes i) :
    Splits track pb (i + 1)
      (pages ++ [page] ++ [⟨pages.length + 1, none, [pb.entry track i]⟩]) where
  entries := by
    rw [List.range_succ, List.map_append, ← h.entries, List.flatMap_append]
    simp
  nonempty := by
    intro q hq
    rcases List.mem_append.mp hq with hq | hq
    · exact h.nonempty q hq
    · obtain rfl := List.mem_singleton.mp hq
      exact List.cons_ne_nil _ _
  starts := by
    rw [pageStarts_concat, h.starts, h.length_entries, filter_range_succ, if_pos hTurns,
      Nat.zero_add, List.cons_append]
  ids := by
    intro k q hq
    obtain ⟨hq, -⟩ | ⟨rfl, rfl⟩ := getElem?_concat hq
    · exact h.ids k q hq
    · simp
  togo := by
    rw [List.isChain_append]
    refine ⟨h.togo, .singleton _, fun q hq next hNext => ?_⟩
    obtain rfl := Option.some.inj hNext
    rw [List.getLast?_concat] at hq
    obtain rfl := Option.some.inj hq
    exact congrArg some hTogo.symm

variable {book : Ebook Node} {rounds : Nat}

theorem Splits.length_pages_le (h : Splits track pb i pages) (hi : i ≤ pb.length.toNat)
    (hFew : ((List.range pb.length.toNat).filter pb.turnsAt).length < maxEbookLength) :
    pages.length ≤ maxEbookLength := by
  have hSub : (List.range i).Sublist (List.range pb.length.toNat) := List.range_sublist.mpr hi
  have hCount := (hSub.filter pb.turnsAt).length_le
  have hPages := h.length_pages
  omega

theorem Made.length_lt (h : Made track pb i book pages page) (hi : i ≤ pb.length.toNat)
    (hFew : ((List.range pb.length.toNat).filter pb.turnsAt).length < maxEbookLength) :
    pages.length < maxEbookLength := by
  have hRoom := h.splits.length_pages_le hi hFew
  rwa [List.length_append, List.length_singleton] at hRoom

theorem Made.setTogo (h : Made track pb i book pages page) (hRoom : pages.length < maxEbookLength)
    (node : Option Node) : ∃ book', setTogo book node = .ok book' ∧
      Made track pb i book' pages { page with togo := node } := by
  obtain ⟨book', hTogo, hShows⟩ : ∃ book', User.setTogo book node = .ok book' ∧ _ :=
    setTogo_shows h.shows hRoom
  exact ⟨book', hTogo, hShows, h.splits.setTogo node⟩

theorem Made.addNode (h : Made track pb i book pages page) (hRoom : pages.length < maxEbookLength)
    (hi : i < maxPathLength) (hOn : pb.turnsAt i = false) :
    ∃ book', addNode book (pb.entry track i).1 (pb.entry track i).2 = .ok book' ∧
      Made track pb (i + 1) book' pages
        { page with entries := page.entries ++ [pb.entry track i] } := by
  have hEnd := h.splits.length_last_le
  obtain ⟨book', hAdd, hShows⟩ : ∃ book', User.addNode book (pb.entry track i).1
      (pb.entry track i).2 = .ok book' ∧ _ := addNode_shows h.shows hRoom (by omega)
  exact ⟨book', hAdd, hShows, h.splits.addNode hOn⟩

theorem Made.reverse (h : Made track pb i book pages page)
    (hRoom : pages.length + 1 < maxEbookLength) (hTurns : pb.turnsAt i = true)
    (hTogo : page.togo = pb.tracknodes i) :
    ∃ book', newEnstruction book (pages.length + 1) ⟨none, 0⟩ (pb.entry track i).1
        (pb.entry track i).2 = .ok book' ∧
      Made track pb (i + 1) book' (pages ++ [page])
        ⟨pages.length + 1, none, [pb.entry track i]⟩ := by
  obtain ⟨book', hNew, hShows⟩ : ∃ book', newEnstruction book (pages.length + 1) ⟨none, 0⟩
      (pb.entry track i).1 (pb.entry track i).2 = .ok book' ∧ _ :=
    newEnstruction_shows h.shows (by simpa using hRoom) ⟨none, 0⟩
  exact ⟨book', hNew, hShows, h.splits.reverse hTurns hTogo⟩

theorem makeEbookLoop_made (hLength : pb.length ≤ maxPathLength)
    (hFew : ((List.range pb.length.toNat).filter pb.turnsAt).length < maxEbookLength)
    (hEnd : i + rounds + 1 = pb.length.toNat) (hi : 0 < i)
    (hMade : Made track pb i book pages page) :
    ∃ book' pages' page', makeEbookLoop track pb rounds i (pages.length + 1) book = .ok book' ∧
      Made track pb (i + rounds) book' pages' page' := by
  induction rounds generalizing i book pages page with
  | zero => exact ⟨book, pages, page, rfl, hMade⟩
  | succ rounds ih =>
    have hEntry : lookahead track (pb.tracknodes i) (pb.tracknodes (i + 1)) =
        (pb.entry track i).2 := (if_pos (by omega)).symm
    have hRoom := hMade.length_lt (by omega) hFew
    have hRounds : i + (rounds + 1) = i + 1 + rounds := by
      omega
    rw [makeEbookLoop, hEntry, hRounds]
    by_cases hReverse : pb.reverse i = true
    · have hTurns : pb.turnsAt i = true := by
        rw [PathBuffer.turnsAt]
        exact decide_eq_true ⟨hi, by omega, hReverse⟩
      obtain ⟨book₁, hTogo, hMade₁⟩ := hMade.setTogo hRoom (pb.tracknodes i)
      have hNext := (hMade₁.splits.reverse hTurns rfl).length_pages_le (by omega) hFew
      simp only [List.length_append, List.length_singleton] at hNext
      obtain ⟨book₂, hNew, hMade₂⟩ := hMade₁.reverse hNext hTurns rfl
      obtain ⟨book', pages', page', hLoop, hDone⟩ := ih (by omega) (by omega : 0 < i + 1) hMade₂
      rw [List.length_append, List.length_singleton, Int.natCast_add, Int.natCast_one] at hLoop
      refine ⟨book', pages', page', ?_, hDone⟩
      rw [if_pos hReverse, hTogo]
      exact (congrArg (· >>= _) hNew).trans hLoop
    · have hOn : pb.turnsAt i = false := by
        rw [PathBuffer.turnsAt]
        exact decide_eq_false fun hAll => hReverse hAll.2.2
      obtain ⟨book₁, hAdd, hMade₁⟩ := hMade.addNode hRoom (by omega) hOn
      obtain ⟨book', pages', page', hLoop, hDone⟩ := ih (by omega) (by omega : 0 < i + 1) hMade₁
      refine ⟨book', pages', page', ?_, hDone⟩
      rw [if_neg hReverse]
      exact (congrArg (· >>= _) hAdd).trans hLoop

omit [DecidableEq Node] in
theorem turnsAt_zero : pb.turnsAt 0 = false := by
  rw [PathBuffer.turnsAt]
  exact decide_eq_false fun hAll => lt_irrefl 0 hAll.1

theorem splits_first (togo : Option Node) :
    Splits track pb 1 [⟨0, togo, [pb.entry track 0]⟩] where
  entries := rfl
  nonempty := by
    intro page hPage
    obtain rfl := List.mem_singleton.mp hPage
    exact List.cons_ne_nil _ _
  starts := by
    rw [filter_range_succ, turnsAt_zero]
    rfl
  ids := by
    intro k page hPage
    obtain ⟨hk, rfl⟩ := List.getElem?_eq_some_iff.mp hPage
    obtain rfl := Nat.lt_one_iff.mp hk
    rfl
  togo := .singleton _

theorem newEnstruction_made (track : Track Node) (hBook : book.Shows [])
    (hLength : 1 < pb.length.toNat) :
    ∃ book', newEnstruction book 0 ⟨pb.tracknodes 0, 0⟩ (pb.tracknodes 0)
        (lookahead track (pb.tracknodes 0) (pb.tracknodes 1)) = .ok book' ∧
      Made track pb 1 book' [] ⟨0, pb.tracknodes 0, [pb.entry track 0]⟩ := by
  have hEntry : lookahead track (pb.tracknodes 0) (pb.tracknodes 1) = (pb.entry track 0).2 :=
    (if_pos hLength).symm
  obtain ⟨book', hNew, hShows⟩ : ∃ book', newEnstruction book 0 ⟨pb.tracknodes 0, 0⟩
      (pb.tracknodes 0) (pb.entry track 0).2 = .ok book' ∧ _ :=
    newEnstruction_shows hBook (by decide : 0 < maxEbookLength) ⟨pb.tracknodes 0, 0⟩
  rw [hEntry]
  exact ⟨book', hNew, hShows, splits_first (pb.tracknodes 0)⟩

/-- The pages show the path, the last one with the path's last node as its goal. -/
theorem makeEbook_splits (hShort : 2 ≤ pb.length) (hLength : pb.length ≤ maxPathLength)
    (hFew : ((List.range pb.length.toNat).filter pb.turnsAt).length < maxEbookLength)
    (book : Ebook Node) :
    ∃ book' pages, makeEbook track pb book = .ok (pages.length, book') ∧ book'.Shows pages ∧
      Splits track pb pb.length.toNat pages ∧
      pages.getLast?.map Page.togo = some (pb.tracknodes (pb.length.toNat - 1)) := by
  obtain ⟨n, hCount⟩ : ∃ n, pb.length.toNat = n + 2 := ⟨pb.length.toNat - 2, by omega⟩
  have hEmpty : (initEbook book).Shows [] := ⟨rfl, fun k p hp => by simp at hp⟩
  have hRounds : (pb.length - 2).toNat = n := by
    omega
  have hLast : (pb.length - 1).toNat = n + 1 := by
    omega
  have hEntry : (pb.entry track (n + 1)).2 = 0 := if_neg (by omega)
  have hOn : pb.turnsAt (n + 1) = false := by
    rw [PathBuffer.turnsAt]
    exact decide_eq_false fun hAll => by omega
  obtain ⟨book₁, hNew, hMade₁⟩ := newEnstruction_made track hEmpty
    (by omega : 1 < pb.length.toNat)
  obtain ⟨book₂, pages, page, hLoop, hMade₂⟩ :=
    makeEbookLoop_made hLength hFew (by omega : 1 + n + 1 = pb.length.toNat) Nat.one_pos hMade₁
  rw [Nat.add_comm 1] at hMade₂
  have hRoom := hMade₂.length_lt (by omega) hFew
  obtain ⟨book₃, hTogo, hMade₃⟩ := hMade₂.setTogo hRoom (pb.tracknodes (n + 1))
  obtain ⟨book', hAdd, hMade⟩ := hMade₃.addNode hRoom (by omega) hOn
  rw [hEntry] at hAdd
  change addNode book₃ (pb.tracknodes (n + 1)) 0 = _ at hAdd
  rw [hCount]
  refine ⟨book', _, ?_, hMade.shows, hMade.splits, by simp⟩
  rw [makeEbook, if_neg (by omega), hRounds, hLast, ← hMade.shows.length_eq]
  dsimp only
  rw [hNew]
  change (makeEbookLoop track pb n 1 1 book₁ >>= _) = _
  rw [show makeEbookLoop track pb n 1 1 book₁ = .ok book₂ from hLoop]
  change (setTogo book₂ _ >>= _) = _
  rw [hTogo]
  change (addNode book₃ _ 0 >>= _) = _
  rw [hAdd]
  rfl

theorem lookahead_branch {n m : Node} (hBranch : track.type n = .branch)
    (hNext : track.dest n dirStraight = some m ∨ track.dest n dirCurved = some m) :
    turnopGetTracknodeIndex (lookahead track (some n) (some m)) = track.idx n ∧
      track.dest n (if turnopGetCurve (lookahead track (some n) (some m)) then dirCurved
        else dirStraight) = some m := by
  rw [lookahead, if_neg (not_not_intro hBranch), turnopGetTracknodeIndex, turnopGetCurve]
  by_cases hStraight : track.dest n dirStraight = some m
  · have hEven : ¬ track.idx n * 2 % 2 = 1 := by
      omega
    rw [if_pos hStraight, decide_eq_false hEven, if_neg Bool.false_ne_true]
    exact ⟨by omega, hStraight⟩
  · have hCurved := hNext.resolve_left hStraight
    have hOdd : (track.idx n * 2 + 1) % 2 = 1 := by
      omega
    rw [if_neg hStraight, if_pos hCurved, decide_eq_true hOdd, if_pos rfl]
    exact ⟨by omega, hCurved⟩

theorem PathBuffer.entry_branch {n m : Node} (h : pb.PassesBranch track i n m) :
    turnopGetTracknodeIndex (pb.entry track i).2 = track.idx n ∧
      track.dest n (if turnopGetCurve (pb.entry track i).2 then dirCurved else dirStraight) =
        some m := by
  rw [PathBuffer.entry]
  dsimp only
  rw [if_pos h.inside, h.node, h.next]
  exact lookahead_branch h.isBranch h.isSuccessor

theorem PathBuffer.entry_other (h : ¬ ∃ n m, pb.PassesBranch track i n m) :
    (pb.entry track i).2 = 0 := by
  rw [PathBuffer.entry]
  dsimp only
  by_cases hInside : i + 1 < pb.length.toNat
  · rw [if_pos hInside]
    cases hNode : pb.tracknodes i with
    | none => rfl
    | some n =>
      cases hNext : pb.tracknodes (i + 1) with
      | none => rfl
      | some m =>
        rw [lookahead]
        split_ifs with hType hStraight hCurved
        · rfl
        · exact absurd ⟨n, m, hInside, hNode, hNext, not_not.mp hType, Or.inl hStraight⟩ h
        · exact absurd ⟨n, m, hInside, hNode, hNext, not_not.mp hType, Or.inr hCurved⟩ h
        · rfl
  · rw [if_neg hInside]

/-- `makeEbook` leaves nothing out and puts nothing in; the arrays of a path buffer have
`maxPathLength` entries. -/
theorem path_split_faithfully (track : Track Node) (pb : PathBuffer Node) (hShort : 2 ≤ pb.length)
    (hLength : pb.length ≤ maxPathLength)
    (hFew : ((List.range pb.length.toNat).filter pb.turnsAt).length < maxEbookLength)
    (book : Ebook Node) :
    ∃ book', makeEbook track pb book = .ok (book'.length, book') ∧ book'.Follows track pb := by
  obtain ⟨book', pages, hBook, hShows, hSplits, hLast⟩ :=
    makeEbook_splits hShort hLength hFew book
  rw [← hShows.length_eq] at hBook
  have hEntry : ∀ (i : Nat) (e : Option Node × Int),
      (pages.flatMap Page.entries)[i]? = some e → e = pb.entry track i := by
    intro i e hi
    rw [hSplits.entries, List.getElem?_map, Option.map_eq_some_iff] at hi
    obtain ⟨j, hj, rfl⟩ := hi
    obtain ⟨-, rfl⟩ := List.getElem?_eq_some_iff.mp hj
    rw [List.getElem_range]
  obtain rfl := hShows.pages_eq
  refine ⟨book', hBook, ?_, hSplits.starts, hSplits.ids, hSplits.togo, hLast, ?_, ?_⟩
  · rw [hSplits.entries, List.map_map]
    rfl
  · intro i e n m hi hPasses
    rw [hEntry i e hi]
    exact PathBuffer.entry_branch hPasses
  · intro i e hi hOther
    rw [hEntry i e hi]
    exact PathBuffer.entry_other hOther

/-- A sensor 0, a branch 2 and its exits 4 and 6; the odd nodes are the same places in the other
direction. -/
def junction : Track Nat where
  idx n := n
  type n := if n < 2 then .sensor else if n = 2 then .branch else if n = 3 then .merge
    else if n % 2 = 0 then .exit else .enter
  num _ := 153
  reverse n := if n % 2 = 0 then n + 1 else n - 1
  dest n d :=
    if d = dirStraight then [some 2, none, some 4, some 1, none, some 3, none, some 3][n]?.join
    else if n = 2 then some 6 else none
  dist _ _ := 100

/-- Along the curved leg to its end, and back. -/
def returnRoute : PathBuffer Nat := ⟨66, 6, fun i => [0, 2, 6, 7, 3, 1][i]?, fun i => i = 3⟩

def blankBook : Ebook Nat := ⟨fun _ => ⟨0, 0, ⟨none, 0⟩, fun _ => 0, fun _ => none⟩, 0⟩

theorem path_split_faithfully_return : ∃ book', makeEbook junction returnRoute blankBook =
    .ok (book'.length, book') ∧ book'.Follows junction returnRoute :=
  path_split_faithfully junction returnRoute (by decide) (by decide) (by decide) blankBook

end TrainKernel.User
