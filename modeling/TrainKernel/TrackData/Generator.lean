import TrainKernel.TrackData.GeneratedTrack

/-!
# The output of the generator

The generator writes one function for each name, and a size that is enough for every table.
-/

namespace TrainKernel.TrackData

open Function Library.Reports Reported

variable {lines : List Text} {files : List (List Text)} {d d' : Description} {t : Table}
variable {tracks ds : List Description} {code : List Stmt} {out : Output}

/-- Nothing is written past `size` nodes, and no pointer leads there. -/
structure Table.Inside (size : Nat) (t : Table) : Prop where
  node : ∀ i, size ≤ i → t i = .zero
  reverse : ∀ i j, (t i).reverse = some j → j < size
  src : ∀ i dir j, ((t i).edge dir).src = some j → j < size
  dest : ∀ i dir j, ((t i).edge dir).dest = some j → j < size
  edgeReverse : ∀ i dir j dir', ((t i).edge dir).reverse = some (j, dir') → j < size

theorem Table.Inside.mono {size size' : Nat} (h : t.Inside size) (hSize : size ≤ size') :
    t.Inside size' where
  node i hi := h.node i (hSize.trans hi)
  reverse i j hj := (h.reverse i j hj).trans_le hSize
  src i dir j hj := (h.src i dir j hj).trans_le hSize
  dest i dir j hj := (h.dest i dir j hj).trans_le hSize
  edgeReverse i dir j dir' hj := (h.edgeReverse i dir j dir' hj).trans_le hSize

namespace Description

/-- Each edge of the table is empty, or leads between nodes. -/
theorem Fills.edge_inside (hFills : d.Fills t) (h : d.Sound) (i : Nat) (dir : User.Dir) :
    (t i).edge dir = .zero ∨ ∃ j back home dist, i < d.nodes.length ∧ j < d.nodes.length ∧
      back < d.nodes.length ∧ (t i).edge dir = d.edgeEntry i j back home dist := by
  rcases hFills.edge_cases i dir with ⟨w, j, rfl, hTarget⟩ | hZero
  case inr => exact .inl hZero
  obtain ⟨a, b, rfl, rfl⟩ := h.lift_target hTarget
  obtain ⟨i', j', e, dist, -, hj, -, -, hEntry⟩ := hFills.track_edgeEntry h hTarget
  obtain ⟨-, c, -, rfl⟩ := h.lift_reverse hj
  exact .inr ⟨b, c, i', dist, a.isLt, b.isLt, c.isLt, hEntry⟩

theorem Fills.inside (hFills : d.Fills t) (h : d.Sound) : t.Inside d.nodes.length where
  node := hFills.outside
  reverse i j hj := by
    rcases Nat.lt_or_ge i d.nodes.length with hi | hi
    · have hReverse := hFills.reverse_eq h ⟨i, hi⟩
      obtain ⟨-, b, -, rfl⟩ := h.lift_reverse (hReverse.symm.trans hj)
      exact b.isLt
    · rw [hFills.outside i hi] at hj
      cases hj
  src i dir j hj := by
    rcases hFills.edge_inside h i dir with hZero | ⟨j, back, home, dist, hi, -, -, hEntry⟩
    · rw [hZero] at hj
      cases hj
    · rw [hEntry] at hj
      exact Option.some_inj.mp hj ▸ hi
  dest i dir j hj := by
    rcases hFills.edge_inside h i dir with hZero | ⟨j', back, home, dist, -, hj', -, hEntry⟩
    · rw [hZero] at hj
      cases hj
    · rw [hEntry] at hj
      exact Option.some_inj.mp hj ▸ hj'
  edgeReverse i dir j dir' hj := by
    rcases hFills.edge_inside h i dir with hZero | ⟨j', back, home, dist, -, -, hBack, hEntry⟩
    · rw [hZero] at hj
      cases hj
    · rw [hEntry] at hj
      obtain ⟨w, -, hPair⟩ := Option.map_eq_some_iff.mp hj
      obtain rfl : back = j := congrArg Prod.fst hPair
      exact hBack

end Description

theorem mem_addTrack_self (tracks : List Description) (d : Description) :
    d ∈ addTrack tracks d := by
  rw [addTrack]
  split_ifs with h
  · obtain ⟨d', hMem, hName⟩ := List.any_eq_true.mp h
    exact List.mem_map.mpr ⟨d', hMem, if_pos (of_decide_eq_true hName)⟩
  · simp

theorem mem_addTrack (h : d' ∈ addTrack tracks d) : d' = d ∨ d' ∈ tracks := by
  rw [addTrack] at h
  split_ifs at h
  · obtain ⟨d₁, hMem, rfl⟩ := List.mem_map.mp h
    split_ifs
    · exact .inl rfl
    · exact .inr hMem
  · exact (List.mem_append.mp h).symm.imp_left List.mem_singleton.mp

theorem mem_addTrack_of_ne (h : d' ∈ tracks) (hNe : d'.function ≠ d.function) :
    d' ∈ addTrack tracks d := by
  rw [addTrack]
  split_ifs
  · exact List.mem_map.mpr ⟨d', h, if_neg hNe⟩
  · exact List.mem_append_left _ h

theorem nodup_addTrack (h : (tracks.map Description.function).Nodup) (d : Description) :
    ((addTrack tracks d).map Description.function).Nodup := by
  rw [addTrack]
  split_ifs with hMem
  · rw [List.map_map]
    convert h using 1
    apply List.map_congr_left
    intro d' _
    simp only [comp_apply]
    split_ifs with hSame
    · exact hSame.symm
    · rfl
  · rw [List.map_append, List.map_singleton, List.nodup_append]
    refine ⟨h, by simp, fun f hf f' hf' => ?_⟩
    rw [List.mem_singleton.mp hf']
    rintro rfl
    obtain ⟨d', hMem', hName⟩ := List.mem_map.mp hf
    exact hMem (List.any_eq_true.mpr ⟨d', hMem', decide_eq_true hName⟩)

theorem mem_tracks (h : d ∈ ds.foldl addTrack []) : d ∈ ds := by
  induction ds using List.reverseRecOn with
  | nil => exact h
  | append_singleton ds d' ih =>
    rw [List.foldl_append] at h
    rcases mem_addTrack h with rfl | hRest
    · simp
    · exact List.mem_append_left _ (ih hRest)

theorem nodup_tracks (ds : List Description) :
    ((ds.foldl addTrack []).map Description.function).Nodup := by
  induction ds using List.reverseRecOn with
  | nil => exact List.nodup_nil
  | append_singleton ds d ih =>
    rw [List.foldl_append]
    exact nodup_addTrack ih d

/-- The last description of a name is kept. -/
theorem mem_tracks_of_last {before after : List Description}
    (h : ∀ d' ∈ after, d'.function ≠ d.function) :
    d ∈ (before ++ d :: after).foldl addTrack [] := by
  induction after using List.reverseRecOn with
  | nil =>
    rw [List.foldl_append]
    exact mem_addTrack_self _ d
  | append_singleton after d' ih =>
    rw [List.forall_mem_append] at h
    rw [← List.cons_append, ← List.append_assoc, List.foldl_append]
    exact mem_addTrack_of_ne (ih h.1) (h.2 d' (by simp)).symm

theorem length_le_maxIdx (h : d ∈ tracks) : d.nodes.length ≤ maxIdx tracks := by
  induction tracks with
  | nil => cases h
  | cons d' tracks ih =>
    rw [maxIdx, List.map_cons, List.foldr_cons]
    rcases List.mem_cons.mp h with rfl | hRest
    · exact Nat.le_max_left _ _
    · exact (ih hRest).trans (Nat.le_max_right _ _)

theorem parseFile_eq_some : parseFile lines = some d ↔ Accepts lines d := by
  rw [parseFile]
  constructor
  · intro h
    split_ifs at h with hReports
    exact ⟨h, hReports⟩
  · intro h
    exact (if_pos h.reports).trans h.value

theorem Accepts.function_isSome (h : Accepts lines d) : d.function.isSome := by
  obtain ⟨p, name, decls, -, -, hStated, hLinks⟩ := accepts_iff.mp h
  rw [hLinks.function, hStated.function]
  rfl

/-- A function that sets up a table, and the description that it is from. -/
structure Output.Implements (out : Output) (f : Text × Table) (d : Description) : Prop where
  name : d.function = some f.1
  fills : d.Fills f.2
  inside : f.2.Inside out.trackMax

/-- The names of the description are names in C. -/
structure Description.Named (d : Description) : Prop where
  function : isName (nameText d.function)
  node : ∀ n ∈ d.nodes, isPlain (nameText n.name)

theorem Accepts.functionCode (h : Accepts lines d) (hMem : d ∈ tracks) : ∃ f,
    functionCode d = some f ∧
      ∀ fs, Output.Implements ⟨maxIdx tracks, fs⟩ (f.1, runCode f.2) d := by
  obtain ⟨code, hCode, hFills⟩ := h.sound.code_fills
  obtain ⟨name, hName⟩ := Option.isSome_iff_exists.mp h.function_isSome
  refine ⟨(name, code), ?_, fun fs => ⟨hName, hFills, ?_⟩⟩
  · rw [TrackData.functionCode, hCode, hName]
    rfl
  · exact (hFills.inside h.sound).mono (length_le_maxIdx hMem)

section Lists

variable {α β : Type} {R : α → β → Prop} {l : List α} {l' : List β}

theorem exists_forall₂ (h : ∀ a ∈ l, ∃ b, R a b) : ∃ l', List.Forall₂ R l l' := by
  induction l with
  | nil => exact ⟨[], .nil⟩
  | cons a l ih =>
    rw [List.forall_mem_cons] at h
    obtain ⟨b, hb⟩ := h.1
    obtain ⟨l', hl'⟩ := ih h.2
    exact ⟨b :: l', .cons hb hl'⟩

theorem forall₂_mem_left (h : List.Forall₂ R l l') : ∀ a ∈ l, ∃ b ∈ l', R a b := by
  induction h with
  | nil => simp
  | cons hFirst _ ih =>
    rw [List.forall_mem_cons]
    refine ⟨⟨_, List.mem_cons_self, hFirst⟩, fun a ha => ?_⟩
    obtain ⟨b, hb, hR⟩ := ih a ha
    exact ⟨b, List.mem_cons_of_mem _ hb, hR⟩

theorem forall₂_mem_right (h : List.Forall₂ R l l') : ∀ b ∈ l', ∃ a ∈ l, R a b :=
  forall₂_mem_left h.flip

end Lists

theorem generate_eq_some : generate files = some out ↔ files ≠ [] ∧ ∃ ds fs,
    List.Forall₂ Accepts files ds ∧
      List.Forall₂ (fun d f => functionCode d = some f) (ds.foldl addTrack []) fs ∧
      out = ⟨maxIdx (ds.foldl addTrack []), fs⟩ := by
  rw [generate]
  split_ifs with hNone
  · simp [hNone]
  simp only [Option.bind_eq_bind, Option.bind_eq_some_iff, mapM_eq_some, parseFile_eq_some,
    Option.pure_def, Option.some_inj, hNone, ne_eq, not_false_eq_true, true_and]
  constructor
  · rintro ⟨ds, hDs, fs, hFs, rfl⟩
    exact ⟨ds, fs, hDs, hFs, rfl⟩
  · rintro ⟨ds, fs, hDs, hFs, rfl⟩
    exact ⟨ds, hDs, fs, hFs, rfl⟩

/-- Names come into the code of a function from the nodes alone. -/
theorem Description.Named.isPlain (h : d.Named) (hCode : d.code = some code) :
    ∀ s ∈ code, s.field.isPlain := by
  obtain ⟨parts, hParts, rfl⟩ := Option.map_eq_some_iff.mp hCode
  intro s hs
  obtain ⟨part, hPart, hs⟩ := List.mem_flatten.mp hs
  obtain ⟨⟨n, i⟩, hn, hNode⟩ := forall₂_mem_right (mapM_eq_some.mp hParts) part hPart
  obtain ⟨fields, hFields, rfl⟩ := Option.map_eq_some_iff.mp hNode
  obtain ⟨field, hField, rfl⟩ := List.mem_map.mp hs
  simp only [nodeFields, Option.bind_eq_bind, Option.bind_eq_some_iff, Option.pure_def,
    Option.some_inj] at hFields
  obtain ⟨kind, -, reverse, -, edges, hEdges, rfl⟩ := hFields
  rcases List.mem_append.mp hField with hPlain | hEdge
  · have hName := h.node n (List.fst_mem_of_mem_zipIdx hn)
    simp only [plainFields, List.mem_append, List.mem_cons, List.not_mem_nil, or_false,
      List.mem_map] at hPlain
    rcases hPlain with ((rfl | rfl | rfl | rfl) | ⟨num, -, rfl⟩) | rfl
    all_goals first | rfl | exact hName
  · obtain ⟨fs, hfs, hMem⟩ := List.mem_flatten.mp hEdge
    obtain ⟨w, -, hWay⟩ := forall₂_mem_right (mapM_eq_some.mp hEdges) fs hfs
    obtain ⟨fw, -, rfl⟩ := Option.map_eq_some_iff.mp hWay
    obtain ⟨f, -, rfl⟩ := List.mem_map.mp hMem
    rfl

/-- The functions of the output are those of the tracks that were kept. -/
theorem functions_implement {fs : List (Text × List Stmt)} (hDs : List.Forall₂ Accepts files ds)
    (hFs : List.Forall₂ (fun d f => functionCode d = some f) (ds.foldl addTrack []) fs) :
    List.Forall₂ (fun d f => Output.Implements ⟨maxIdx (ds.foldl addTrack []), fs⟩ f d)
      (ds.foldl addTrack []) (fs.map fun f => (f.1, runCode f.2)) := by
  rw [List.forall₂_map_right_iff]
  rw [List.forall₂_iff_zip] at hFs ⊢
  refine ⟨hFs.1, fun {d f} hMem => ?_⟩
  have hKept := (List.of_mem_zip hMem).1
  obtain ⟨lines, -, hAccepts⟩ := forall₂_mem_right hDs d (mem_tracks hKept)
  obtain ⟨f', hf', hImplements⟩ := hAccepts.functionCode hKept
  obtain rfl := Option.some_inj.mp ((hFs.2 hMem).symm.trans hf')
  exact hImplements fs

/-- The compiler takes what is written of descriptions whose names are names in C. -/
theorem compile_isSome {fs : List (Text × List Stmt)} (hDs : List.Forall₂ Accepts files ds)
    (hFs : List.Forall₂ (fun d f => functionCode d = some f) (ds.foldl addTrack []) fs)
    (hNamed : ∀ lines ∈ files, ∀ d, Accepts lines d → d.Named) (size : Nat) :
    (compile ⟨size, fs⟩).isSome := by
  rw [compile, if_pos]
  · rfl
  intro f hf
  obtain ⟨d, hKept, hCode⟩ := forall₂_mem_right hFs f hf
  obtain ⟨lines, hLines, hAccepts⟩ := forall₂_mem_right hDs d (mem_tracks hKept)
  obtain ⟨code, hStmts, rfl⟩ := Option.map_eq_some_iff.mp hCode
  have hNames := hNamed lines hLines d hAccepts
  exact ⟨hNames.function, hNames.isPlain hStmts⟩

/-- The generator has an output if there are files and every one is accepted, and only then. The
compiler takes it if the names of the descriptions are names in C. What it takes are functions each
of which fills a table as one of the files describes it and stays inside of it; there is one
function for each name, and it is from the last file with that name. -/
theorem generate_implements (files : List (List Text)) :
    ((∃ out, generate files = some out) ↔
      files ≠ [] ∧ ∀ lines ∈ files, ∃ d, Accepts lines d) ∧
    ∀ out, generate files = some out →
      ((∀ lines ∈ files, ∀ d, Accepts lines d → d.Named) → (compile out).isSome) ∧
      ∀ tables, compile out = some tables →
        (∀ f ∈ tables, ∃ lines ∈ files, ∃ d, Accepts lines d ∧ out.Implements f d) ∧
        (tables.map Prod.fst).Nodup ∧
        ∀ before lines after d, files = before ++ lines :: after → Accepts lines d →
          (∀ lines' ∈ after, ∀ d', Accepts lines' d' → d'.function ≠ d.function) →
          ∃ f ∈ tables, out.Implements f d := by
  simp only [generate_eq_some]
  refine ⟨⟨?_, fun ⟨hSome, hFiles⟩ => ?_⟩, ?_⟩
  · rintro ⟨out, hSome, ds, fs, hDs, -, -⟩
    refine ⟨hSome, fun lines hLines => ?_⟩
    obtain ⟨d, -, hAccepts⟩ := forall₂_mem_left hDs lines hLines
    exact ⟨d, hAccepts⟩
  · obtain ⟨ds, hDs⟩ := exists_forall₂ hFiles
    have hCode : ∀ d ∈ ds.foldl addTrack [], ∃ f, functionCode d = some f := by
      intro d hKept
      obtain ⟨lines, -, hAccepts⟩ := forall₂_mem_right hDs d (mem_tracks hKept)
      obtain ⟨f, hf, -⟩ := hAccepts.functionCode hKept
      exact ⟨f, hf⟩
    obtain ⟨fs, hFs⟩ := exists_forall₂ hCode
    exact ⟨_, hSome, ds, fs, hDs, hFs, rfl⟩
  · rintro out ⟨-, ds, fs, hDs, hFs, rfl⟩
    refine ⟨fun hNamed => compile_isSome hDs hFs hNamed _, fun tables hTables => ?_⟩
    rw [compile] at hTables
    split_ifs at hTables
    obtain rfl := Option.some_inj.mp hTables
    have hImplements := functions_implement hDs hFs
    refine ⟨fun f hf => ?_, ?_, ?_⟩
    · obtain ⟨d, hKept, hImplements⟩ := forall₂_mem_right hImplements f hf
      obtain ⟨lines, hLines, hAccepts⟩ := forall₂_mem_right hDs d (mem_tracks hKept)
      exact ⟨lines, hLines, d, hAccepts, hImplements⟩
    · have hNames : (ds.foldl addTrack []).map Description.function =
          ((fs.map fun f => (f.1, runCode f.2)).map Prod.fst).map some := by
        rw [← List.forall₂_eq_eq_eq, List.forall₂_map_left_iff, List.map_map,
          List.forall₂_map_right_iff]
        exact hImplements.imp fun _ _ h => h.name
      have hNodup := nodup_tracks ds
      rw [hNames] at hNodup
      exact hNodup.of_map some
    · rintro before lines after d rfl hAccepts hLast
      have hAfter := List.forall₂_drop_append _ _ _ hDs.flip
      rw [List.forall₂_cons_right_iff] at hAfter
      obtain ⟨d', rest, hFirst, hRest, hSplit⟩ := hAfter
      obtain rfl : d = d' := hAccepts.unique hFirst
      have hKept : d ∈ ds.foldl addTrack [] := by
        rw [← List.take_append_drop before.length ds, hSplit]
        apply mem_tracks_of_last
        intro d' hd'
        obtain ⟨lines', hLines', hAccepts'⟩ := forall₂_mem_left hRest d' hd'
        exact hLast lines' hLines' d' hAccepts'
      exact forall₂_mem_left hImplements d hKept

example : ((generate [shuttleText]).bind compile).isSome := by decide +kernel

end TrainKernel.TrackData
