import NvmrDisplay.Qml.ScreenRefinement

/-!
The layout of the page over whole runs. Every operation on a screen keeps its
tiles up to order, apart from the tile it creates or the camera it removes, so
the tiles of a reached page are those of a ledger that only records creations
and removals.
-/

namespace NvmrDisplay.Qml

/-- The tiles created so far and not removed since, in order of creation. -/
structure Ledger where
  live : List NVMRVideo
  created : Nat

namespace Ledger

def record (ledger : Ledger) : FormEvent → Ledger
  | .rtspFound url uniqueName videoName =>
      { live := ledger.live ++
          [{ id := ledger.created, videoName, videoSource := url, uniqueName }]
        created := ledger.created + 1 }
  | .rtspWentAway uniqueName =>
      { ledger with live := ledger.live.filter fun video => video.uniqueName != uniqueName }
  | .click _ | .multi | .single => ledger

def ofEvents (events : List FormEvent) : Ledger :=
  events.foldl record ⟨[], 0⟩

theorem ofEvents_append_singleton (events : List FormEvent) (event : FormEvent) :
    ofEvents (events ++ [event]) = (ofEvents events).record event := by
  simp [ofEvents]

/-- Tiles are recorded under increasing identities below the counter. -/
theorem ids (events : List FormEvent) :
    ((ofEvents events).live.map NVMRVideo.id).Nodup ∧
      ∀ video ∈ (ofEvents events).live, video.id < (ofEvents events).created := by
  induction events using List.reverseRecOn with
  | nil => simp [ofEvents]
  | append_singleton events event ih =>
      rw [ofEvents_append_singleton]
      obtain ⟨hnodup, hfresh⟩ := ih
      cases event with
      | rtspFound url uniqueName videoName =>
          constructor
          · simp only [record, List.map_append, List.map_cons, List.map_nil]
            refine List.nodup_append.mpr ⟨hnodup, by simp, ?_⟩
            intro id hid other hother
            obtain ⟨video, hvideo, rfl⟩ := List.mem_map.mp hid
            have := hfresh video hvideo
            simp only [List.mem_singleton] at hother
            omega
          · intro video hvideo
            simp only [record, List.mem_append, List.mem_singleton] at hvideo ⊢
            rcases hvideo with hold | rfl
            · have := hfresh video hold
              omega
            · simp
      | rtspWentAway uniqueName =>
          constructor
          · exact hnodup.sublist (List.filter_sublist.map _)
          · intro video hvideo
            exact hfresh video (List.mem_of_mem_filter hvideo)
      | click _ | multi | single => exact ⟨hnodup, hfresh⟩

/-- A tile that some event of the run created and no later one removed. The
number of creations before that event is the identity of the tile. -/
def Survives (events : List FormEvent) (video : NVMRVideo) : Prop :=
  ∃ before url uniqueName videoName after,
    events = before ++ .rtspFound url uniqueName videoName :: after ∧
      .rtspWentAway uniqueName ∉ after ∧
      video =
        { id := (ofEvents before).created, videoName, videoSource := url, uniqueName }

theorem survives_append_singleton (events : List FormEvent) (event : FormEvent)
    (video : NVMRVideo) :
    Survives (events ++ [event]) video ↔
      (Survives events video ∧ event ≠ .rtspWentAway video.uniqueName) ∨
      ∃ url uniqueName videoName, event = .rtspFound url uniqueName videoName ∧
        video =
          { id := (ofEvents events).created, videoName, videoSource := url, uniqueName } := by
  constructor
  · rintro ⟨before, url, uniqueName, videoName, after, hevents, hkept, rfl⟩
    rcases List.eq_nil_or_concat after with rfl | ⟨prior, last, rfl⟩
    · obtain ⟨hbefore, hlast⟩ := List.append_inj' hevents rfl
      subst hbefore
      exact Or.inr ⟨url, uniqueName, videoName, by simpa using hlast, rfl⟩
    · rw [List.concat_eq_append] at hevents hkept
      rw [← List.cons_append, ← List.append_assoc] at hevents
      obtain ⟨hbefore, hlast⟩ := List.append_inj' hevents rfl
      simp only [List.mem_append, List.mem_singleton, not_or] at hkept
      refine Or.inl ⟨⟨before, url, uniqueName, videoName, prior, hbefore, hkept.1, rfl⟩, ?_⟩
      simp only [List.cons.injEq, and_true] at hlast
      rw [hlast]
      exact fun h => hkept.2 h.symm
  · rintro (⟨⟨before, url, uniqueName, videoName, after, rfl, hkept, rfl⟩, hevent⟩ |
      ⟨url, uniqueName, videoName, rfl, rfl⟩)
    · refine ⟨before, url, uniqueName, videoName, after ++ [event], by simp, ?_, rfl⟩
      simp only [List.mem_append, List.mem_singleton, not_or]
      exact ⟨hkept, fun h => hevent h.symm⟩
    · exact ⟨events, url, uniqueName, videoName, [], rfl, by simp, rfl⟩

/-- A tile outlives everything but the loss of its camera. -/
theorem Survives.append {events : List FormEvent} {video : NVMRVideo}
    (h : Survives events video) {more : List FormEvent}
    (hkeeps : .rtspWentAway video.uniqueName ∉ more) : Survives (events ++ more) video := by
  obtain ⟨before, url, uniqueName, videoName, after, rfl, hafter, rfl⟩ := h
  refine ⟨before, url, uniqueName, videoName, after ++ more, by simp, ?_, rfl⟩
  simp only [List.mem_append, not_or]
  exact ⟨hafter, hkeeps⟩

theorem mem_live_iff (events : List FormEvent) (video : NVMRVideo) :
    video ∈ (ofEvents events).live ↔ Survives events video := by
  induction events using List.reverseRecOn with
  | nil => simp [ofEvents, Survives]
  | append_singleton events event ih =>
      rw [ofEvents_append_singleton, survives_append_singleton, ← ih]
      cases event with
      | rtspFound url uniqueName videoName => simp [record]
      | rtspWentAway uniqueName =>
          have hname : (video.uniqueName ≠ uniqueName) ↔
              FormEvent.rtspWentAway uniqueName ≠ .rtspWentAway video.uniqueName := by
            rw [ne_comm, Ne, Ne, FormEvent.rtspWentAway.injEq]
          simp only [record, List.mem_filter, bne_iff_ne, hname, reduceCtorEq, false_and,
            exists_const, or_false]
      | click _ | multi | single => simp [record]

end Ledger

namespace Screen

theorem quadTiles_update (quads : Fin 4 → Option NVMRVideo) (next : Fin 4)
    (video : NVMRVideo) :
    (View.quadTiles (Function.update quads next (some video)) ++ (quads next).toList).Perm
      (video :: View.quadTiles quads) := by
  rw [List.perm_iff_count]
  intro other
  fin_cases next <;>
    simp [View.quadTiles, List.count_append, List.count_cons] <;> omega

theorem choose_tiles (screen : Screen) (video : NVMRVideo) (hvideo : video ∈ screen.others) :
    (screen.choose video).tiles.Perm screen.tiles := by
  obtain ⟨view, others, created⟩ := screen
  rw [List.perm_iff_count]
  intro other
  cases view with
  | single main =>
      have herase := (List.perm_cons_erase
        (List.mem_append_left main.toList hvideo)).count_eq other
      simp only [List.count_append, List.count_cons] at herase
      simp only [choose, tiles, View.tiles, Option.toList_some, List.count_append,
        List.count_cons, List.count_nil]
      omega
  | multi quads next =>
      have herase := (List.perm_cons_erase
        (List.mem_append_left (quads next).toList hvideo)).count_eq other
      have hquads := (quadTiles_update quads next video).count_eq other
      simp only [List.count_append, List.count_cons] at herase hquads
      simp only [choose, tiles, View.tiles, List.count_append]
      omega

theorem click_tiles (screen : Screen) (id : Nat) :
    (screen.click id).tiles.Perm screen.tiles := by
  unfold click
  cases hside : screen.others.find? fun video => video.id = id with
  | none => exact List.Perm.refl _
  | some video => exact choose_tiles screen video (List.mem_of_find?_eq_some hside)

theorem showQuads_tiles (screen : Screen) : screen.showQuads.tiles.Perm screen.tiles := by
  obtain ⟨view, others, created⟩ := screen
  cases view with
  | multi quads next => exact List.Perm.refl _
  | single main =>
      cases main <;> simp [showQuads, tiles, View.tiles, View.quadTiles]

theorem showMain_tiles (screen : Screen) : screen.showMain.tiles.Perm screen.tiles := by
  obtain ⟨view, others, created⟩ := screen
  cases view with
  | single main => exact List.Perm.refl _
  | multi quads next =>
      rw [List.perm_iff_count]
      intro other
      simp only [showMain, tiles, View.tiles, View.quadTiles, List.count_append]
      omega

theorem removeCamera_tiles (screen : Screen) (uniqueName : String) :
    (screen.removeCamera uniqueName).tiles =
      screen.tiles.filter fun video => video.uniqueName != uniqueName := by
  obtain ⟨view, others, created⟩ := screen
  cases view <;>
    simp [removeCamera, tiles, View.tiles, View.removeCamera, View.quadTiles,
      Option.toList_filter]

theorem click_created (screen : Screen) (id : Nat) :
    (screen.click id).created = screen.created := by
  obtain ⟨view, others, created⟩ := screen
  cases view <;> simp only [click, choose] <;> split <;> rfl

theorem showQuads_created (screen : Screen) : screen.showQuads.created = screen.created := by
  obtain ⟨view, others, created⟩ := screen
  rcases view with (_ | _) | _ <;> rfl

theorem showMain_created (screen : Screen) : screen.showMain.created = screen.created := by
  obtain ⟨view, others, created⟩ := screen
  cases view <;> rfl

/-- A screen holds what a ledger says: the same tiles, up to order. -/
structure Holds (screen : Screen) (ledger : Ledger) : Prop where
  tiles : screen.tiles.Perm ledger.live
  created : screen.created = ledger.created

/-- One event keeps the screen and the ledger in step. -/
theorem Holds.handle {screen : Screen} {ledger : Ledger} (h : screen.Holds ledger)
    (event : FormEvent) : (screen.handle event).Holds (ledger.record event) := by
  cases event with
  | rtspFound url uniqueName videoName =>
      refine ⟨?_, congrArg (· + 1) h.created⟩
      have hnew := h.tiles.append_right
        [{ id := ledger.created, videoName, videoSource := url, uniqueName : NVMRVideo }]
      simpa [Screen.handle, addCamera, Screen.tiles, Ledger.record, h.created] using hnew
  | rtspWentAway uniqueName =>
      refine ⟨?_, h.created⟩
      change ((screen.removeCamera uniqueName).tiles).Perm _
      rw [removeCamera_tiles]
      exact h.tiles.filter _
  | click id =>
      exact ⟨(click_tiles screen id).trans h.tiles, (click_created screen id).trans h.created⟩
  | multi =>
      exact ⟨(showQuads_tiles screen).trans h.tiles,
        (showQuads_created screen).trans h.created⟩
  | single =>
      exact ⟨(showMain_tiles screen).trans h.tiles,
        (showMain_created screen).trans h.created⟩

theorem Holds.distinct {screen : Screen} {events : List FormEvent}
    (h : screen.Holds (Ledger.ofEvents events)) : screen.Distinct where
  nodup := ((h.tiles.map _).nodup_iff).mpr (Ledger.ids events).1
  fresh video hvideo := by
    rw [h.created]
    exact (Ledger.ids events).2 video (h.tiles.subset hvideo)

end Screen

namespace VideoForm

/-- The induction rule for runs of the page: what holds of the initial screen
and survives every event holds of a screen that the reached page shows. -/
theorem run_screen {P : List FormEvent → Screen → Prop} (hinit : P [] .initial)
    (hstep : ∀ events screen event, run events = screen.toForm → screen.Distinct →
      P events screen → P (events ++ [event]) (screen.handle event))
    (events : List FormEvent) :
    ∃ screen : Screen, run events = screen.toForm ∧
      screen.Holds (Ledger.ofEvents events) ∧ P events screen := by
  induction events using List.reverseRecOn with
  | nil =>
      refine ⟨.initial, ?_, ⟨List.Perm.refl _, rfl⟩, hinit⟩
      apply VideoForm.ext
      · funext container
        cases container <;> rfl
      all_goals rfl
  | append_singleton events event ih =>
      obtain ⟨screen, hrun, hholds, hscreen⟩ := ih
      refine ⟨screen.handle event, ?_, ?_,
        hstep events screen event hrun hholds.distinct hscreen⟩
      · have hhandle := screen.handle_toForm hholds.distinct event
        simp [run, runFrom, ← hhandle, ← hrun]
      · rw [Ledger.ofEvents_append_singleton]
        exact hholds.handle event

/-- Every reached page shows a screen that holds the ledger of the run. -/
theorem run_shows (events : List FormEvent) :
    ∃ screen : Screen, run events = screen.toForm ∧
      screen.Holds (Ledger.ofEvents events) := by
  obtain ⟨screen, hrun, hholds, _⟩ :=
    run_screen (P := fun _ _ => True) trivial (fun _ _ _ _ _ _ => trivial) events
  exact ⟨screen, hrun, hholds⟩

/-- The quads in the order of the round-robin counter. -/
def quads : List Container := [.quad1, .quad2, .quad3, .quad4]

/-- The shape of the page in every state between two handlers. -/
structure Layout (form : VideoForm) : Prop where
  oneVisible : form.mainVideoVisible = !form.quadVideoVisible
  mainSlot : (form.children .mainVideo).length ≤ 1
  quadSlots : ∀ quad ∈ quads, (form.children quad).length ≤ 1
  mainHidden : form.quadVideoVisible → form.children .mainVideo = []
  quadsHidden : form.mainVideoVisible → ∀ quad ∈ quads, form.children quad = []
  counter : 0 ≤ form.quadVideoNumber ∧ form.quadVideoNumber ≤ 3
  counterReset : form.mainVideoVisible → form.quadVideoNumber = 0

theorem toForm_layout (screen : Screen) : Layout screen.toForm := by
  have hslot := screen.toForm_slot_length
  obtain ⟨view, others, created⟩ := screen
  refine
    { oneVisible := by simp [Screen.toForm]
      mainSlot := hslot _ (by decide)
      quadSlots := fun quad hquad => hslot quad (by rintro rfl; simp [quads] at hquad)
      mainHidden := ?_
      quadsHidden := ?_
      counter := ?_
      counterReset := ?_ }
  all_goals cases view with
  | single main => simp [Screen.toForm, View.isSingle, View.slot, View.counter, quads]
  | multi slots next =>
      have := next.isLt
      simp [Screen.toForm, View.isSingle, View.slot, View.counter]
      try omega

/-- After any sequence of discoveries, losses, clicks and button presses the
page has its layout, and every tile that was created and not removed is in
exactly one container, once; there are no other tiles. -/
theorem layout_of_run (events : List FormEvent) :
    Layout (run events) ∧
      (∀ video, Ledger.Survives events video →
        ∃! container, video ∈ (run events).children container) ∧
      (∀ container, ((run events).children container).Nodup) ∧
      ∀ container, ∀ video ∈ (run events).children container,
        Ledger.Survives events video := by
  obtain ⟨screen, hrun, hholds⟩ := run_shows events
  have hnodup : (run events).tiles.Nodup := hrun ▸ hholds.distinct.form_nodup
  have htile (video : NVMRVideo) :
      (∃ container, video ∈ (run events).children container) ↔
        Ledger.Survives events video := by
    rw [← Ledger.mem_live_iff, ← hholds.tiles.mem_iff, ← Screen.toForm_tiles, ← hrun]
    exact (mem_tiles_iff (run events) video).symm
  refine ⟨hrun ▸ toForm_layout screen, ?_, ?_, ?_⟩
  · intro video hsurvives
    obtain ⟨container, hvideo⟩ := (htile video).mpr hsurvives
    refine ⟨container, hvideo, ?_⟩
    intro other hother
    by_contra hne
    exact not_mem_of_ne _ hnodup video hvideo hne hother
  · intro container
    exact (List.nodup_flatMap.mp hnodup).1 container (container.mem_all)
  · intro container video hvideo
    exact (htile video).mp ⟨container, hvideo⟩

end VideoForm

end NvmrDisplay.Qml
