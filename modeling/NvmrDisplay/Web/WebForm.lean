import NvmrDisplay.Web.SettingsHelper
import NvmrDisplay.Lib.Machine
import Mathlib.Data.List.Nodup

/-!
The web pages, `qml/WebForm.qml`, over any number of sessions. Each page loads
its saved URL once in a session; web servers that are discovered replace the
URL of a page that has none saved, at most once in a session. Only the stored
settings outlive a restart.
-/

namespace NvmrDisplay.Web

open Lib

structure WebForm where
  url : String
  webInitialized : Bool
  deriving DecidableEq, Repr

/-- A page before it is loaded. -/
def WebForm.initial : WebForm := ⟨"", false⟩

structure Session where
  helper : SettingsHelper
  pages : Int → WebForm
  /-- The pages loaded in this session. -/
  loaded : List Int

inductive WebEvent where
  | load (id : Int)
  | navigate (id : Int) (url : String)
  | jmriWebserverFound (url : String)
  | save (id : Int)
  | clear (id : Int)
  | restart
  deriving DecidableEq, Repr

/-- The page an event is about; discovery and restarts are about all pages. -/
def WebEvent.page? : WebEvent → Option Int
  | .load id | .navigate id _ | .save id | .clear id => some id
  | .jmriWebserverFound _ | .restart => none

namespace Session

/-- Assigning `webView.url`, with the handler `onUrlChanged`. -/
def setUrl (session : Session) (id : Int) (url : String) : Session :=
  if (session.pages id).url = url then session
  else
    { session with
      pages := Function.update session.pages id { session.pages id with url }
      helper := session.helper.cacheDefaultPageForID id url }

def setInitialized (session : Session) (id : Int) : Session :=
  { session with
    pages := Function.update session.pages id
      { session.pages id with webInitialized := true } }

/-- `Component.onCompleted` of a page. -/
def onCompleted (session : Session) (id : Int) : Session :=
  { session with loaded := session.loaded ++ [id] }.setUrl id
    (session.helper.defaultPageForID id)

/-- A page that is not on the default one counts as initialized. -/
def keepSaved (session : Session) (id : Int) : Session :=
  if !session.helper.isUsingDefaultPageForID id then session.setInitialized id else session

/-- `onJmriWebserverFound` of one page. -/
def onJmriWebserverFound (url : String) (session : Session) (id : Int) : Session :=
  if ((session.keepSaved id).pages id).webInitialized then session.keepSaved id
  else ((session.keepSaved id).setUrl id url).setInitialized id

def restart (session : Session) : Session where
  helper := session.helper.restart
  pages _ := .initial
  loaded := []

def step (session : Session) : WebEvent → Option Session
  | .load id => if id ∈ session.loaded then none else some (session.onCompleted id)
  | .navigate id url => if id ∈ session.loaded then some (session.setUrl id url) else none
  | .jmriWebserverFound url =>
      some (session.loaded.foldl (onJmriWebserverFound url) session)
  | .save id => some { session with helper := session.helper.saveDefaultPageForID id }
  | .clear id => some { session with helper := session.helper.clearDefaultPageForID id }
  | .restart => some session.restart

end Session

/-- The program from its first session on, with whatever was stored before. -/
def webPages (settings : QMap String String) (defaultURL : String) : Machine Session WebEvent where
  init := ⟨⟨settings, defaultURL, .empty⟩, fun _ => .initial, []⟩
  step := Session.step

namespace Session

/-- What discovery makes of a loaded page. -/
def discovered (session : Session) (url : String) (id : Int) : WebForm :=
  if (session.pages id).webInitialized then session.pages id
  else if session.helper.isUsingDefaultPageForID id then ⟨url, true⟩
  else ⟨(session.pages id).url, true⟩

theorem setUrl_pages (session : Session) (id : Int) (url : String) :
    (session.setUrl id url).pages =
      Function.update session.pages id { session.pages id with url } := by
  unfold setUrl
  split
  · rename_i hsame
    rw [← hsame]
    exact (Function.update_eq_self id session.pages).symm
  · rfl

theorem setUrl_helper (session : Session) (id : Int) (url : String) :
    (session.setUrl id url).helper.settings = session.helper.settings ∧
      (session.setUrl id url).helper.defaultURL = session.helper.defaultURL := by
  unfold setUrl
  split <;> exact ⟨rfl, rfl⟩

theorem setUrl_loaded (session : Session) (id : Int) (url : String) :
    (session.setUrl id url).loaded = session.loaded := by
  unfold setUrl
  split <;> rfl

theorem onJmriWebserverFound_loaded (url : String) (session : Session) (id : Int) :
    (session.onJmriWebserverFound url id).loaded = session.loaded := by
  have hkept : (session.keepSaved id).loaded = session.loaded := by
    unfold keepSaved
    split <;> rfl
  unfold onJmriWebserverFound
  split
  · exact hkept
  · exact (setUrl_loaded _ id url).trans hkept

/-- What the handlers of one page leave alone: the stored settings, the default
URL, the other pages and what is cached for them. -/
structure OnlyPage (id : Int) (session session' : Session) : Prop where
  settings : session'.helper.settings = session.helper.settings
  defaultURL : session'.helper.defaultURL = session.helper.defaultURL
  pages : ∀ other, other ≠ id → session'.pages other = session.pages other
  cached : ∀ other, other ≠ id → session'.helper.cached other = session.helper.cached other

theorem setUrl_onlyPage (session : Session) (id : Int) (url : String) :
    OnlyPage id session (session.setUrl id url) where
  settings := (session.setUrl_helper id url).1
  defaultURL := (session.setUrl_helper id url).2
  pages other hother := by
    rw [setUrl_pages, Function.update_of_ne hother]
  cached other hother := by
    unfold setUrl
    split
    · rfl
    · rw [SettingsHelper.cached_cache, if_neg hother]

theorem setInitialized_onlyPage (session : Session) (id : Int) :
    OnlyPage id session (session.setInitialized id) where
  settings := rfl
  defaultURL := rfl
  pages _ hother := Function.update_of_ne hother _ _
  cached _ _ := rfl

theorem OnlyPage.trans {id : Int} {a b c : Session} (hab : OnlyPage id a b)
    (hbc : OnlyPage id b c) : OnlyPage id a c where
  settings := hbc.settings.trans hab.settings
  defaultURL := hbc.defaultURL.trans hab.defaultURL
  pages other hother := (hbc.pages other hother).trans (hab.pages other hother)
  cached other hother := (hbc.cached other hother).trans (hab.cached other hother)

theorem OnlyPage.refl (id : Int) (session : Session) : OnlyPage id session session where
  settings := rfl
  defaultURL := rfl
  pages _ _ := rfl
  cached _ _ := rfl

theorem keepSaved_onlyPage (session : Session) (id : Int) :
    OnlyPage id session (session.keepSaved id) := by
  unfold keepSaved
  split
  · exact setInitialized_onlyPage session id
  · exact OnlyPage.refl id session

theorem onJmriWebserverFound_onlyPage (url : String) (session : Session) (id : Int) :
    OnlyPage id session (session.onJmriWebserverFound url id) := by
  have hkept := session.keepSaved_onlyPage id
  unfold onJmriWebserverFound
  split
  · exact hkept
  · exact (hkept.trans (setUrl_onlyPage _ id url)).trans (setInitialized_onlyPage _ id)

theorem keepSaved_page (session : Session) (id : Int) :
    (session.keepSaved id).pages id =
      if session.helper.isUsingDefaultPageForID id then session.pages id
      else ⟨(session.pages id).url, true⟩ := by
  unfold keepSaved
  by_cases hdefault : session.helper.isUsingDefaultPageForID id
  · simp [hdefault]
  · simp [hdefault, setInitialized]

/-- The handler's effect on its own page. -/
theorem onJmriWebserverFound_page (url : String) (session : Session) (id : Int) :
    (session.onJmriWebserverFound url id).pages id = session.discovered url id := by
  have hpage := session.keepSaved_page id
  unfold onJmriWebserverFound discovered
  by_cases hdefault : session.helper.isUsingDefaultPageForID id
  · rw [if_pos hdefault] at hpage
    rw [hpage, if_pos hdefault]
    split
    · exact hpage
    · simp [setInitialized, setUrl_pages, hpage]
  · rw [if_neg hdefault] at hpage
    rw [hpage, if_neg hdefault, if_pos rfl, hpage]
    split
    · rename_i hinitialized
      rw [← hinitialized]
    · rfl

theorem OnlyPage.discovered {id : Int} {session session' : Session}
    (h : OnlyPage id session session') (url : String) {other : Int} (hother : other ≠ id) :
    session'.discovered url other = session.discovered url other := by
  have hdefault : session'.helper.isUsingDefaultPageForID other =
      session.helper.isUsingDefaultPageForID other := by
    simp only [SettingsHelper.isUsingDefaultPageForID, h.settings, h.defaultURL]
  rw [Session.discovered, Session.discovered, h.pages other hother, hdefault]

/-- The handlers of all pages: each acts on its own page, once. -/
theorem foldl_onJmriWebserverFound (url : String) (ids : List Int) (hnodup : ids.Nodup)
    (session : Session) :
    (ids.foldl (onJmriWebserverFound url) session).helper.settings = session.helper.settings ∧
      (ids.foldl (onJmriWebserverFound url) session).helper.defaultURL =
        session.helper.defaultURL ∧
      ∀ id, (ids.foldl (onJmriWebserverFound url) session).pages id =
        if id ∈ ids then session.discovered url id else session.pages id := by
  induction ids generalizing session with
  | nil => exact ⟨rfl, rfl, fun id => by simp⟩
  | cons first rest ih =>
      obtain ⟨hfirst, hrest⟩ := List.nodup_cons.mp hnodup
      have honly := onJmriWebserverFound_onlyPage url session first
      obtain ⟨hsettings, hdefault, hpages⟩ := ih hrest (session.onJmriWebserverFound url first)
      refine ⟨hsettings.trans honly.settings, hdefault.trans honly.defaultURL, ?_⟩
      intro id
      rw [List.foldl_cons, hpages]
      by_cases hid : id = first
      · subst hid
        rw [if_neg hfirst, if_pos List.mem_cons_self]
        exact onJmriWebserverFound_page url session id
      · rw [honly.discovered url hid, honly.pages id hid]
        simp [hid]

/-- What is cached of a page is what it shows. -/
def Cached (session : Session) : Prop :=
  ∀ id, session.helper.cached id = (session.pages id).url

theorem Cached.setUrl {session : Session} (h : session.Cached) (id : Int) (url : String) :
    (session.setUrl id url).Cached := by
  intro other
  by_cases hother : other = id
  · subst hother
    rw [setUrl_pages, Function.update_self]
    unfold Session.setUrl
    split
    · rename_i hsame
      rw [h other, hsame]
    · rw [SettingsHelper.cached_cache, if_pos rfl]
  · have honly := session.setUrl_onlyPage id url
    rw [honly.cached other hother, honly.pages other hother, h other]

theorem Cached.setInitialized {session : Session} (h : session.Cached) (id : Int) :
    (session.setInitialized id).Cached := by
  intro other
  refine (h other).trans ?_
  unfold Session.setInitialized
  by_cases hother : other = id
  · subst hother
    simp
  · simp [hother]

theorem Cached.keepSaved {session : Session} (h : session.Cached) (id : Int) :
    (session.keepSaved id).Cached := by
  unfold Session.keepSaved
  split
  · exact h.setInitialized id
  · exact h

theorem Cached.onJmriWebserverFound {session : Session} (h : session.Cached) (url : String)
    (id : Int) : (session.onJmriWebserverFound url id).Cached := by
  unfold Session.onJmriWebserverFound
  split
  · exact h.keepSaved id
  · exact ((h.keepSaved id).setUrl id url).setInitialized id

theorem Cached.step {session session' : Session} (h : session.Cached) {event : WebEvent}
    (hstep : session.step event = some session') : session'.Cached := by
  cases event with
  | load id =>
      obtain ⟨_, hstep⟩ := Option.ite_none_left_eq_some.mp hstep
      obtain rfl := Option.some.inj hstep
      have hloaded : Cached { session with loaded := session.loaded ++ [id] } := h
      exact hloaded.setUrl id _
  | navigate id url =>
      obtain ⟨_, hstep⟩ := Option.ite_none_right_eq_some.mp hstep
      obtain rfl := Option.some.inj hstep
      exact h.setUrl id url
  | jmriWebserverFound url =>
      obtain rfl := Option.some.inj hstep
      apply List.foldlRecOn session.loaded (Session.onJmriWebserverFound url) h
      intro session h id _
      exact h.onJmriWebserverFound url id
  | save id | clear id =>
      obtain rfl := Option.some.inj hstep
      exact h
  | restart =>
      obtain rfl := Option.some.inj hstep
      exact fun id => rfl

/-- A page is loaded at most once in a session. -/
theorem loaded_step {session session' : Session} {event : WebEvent}
    (hstep : session.step event = some session') (h : session.loaded.Nodup) :
    session'.loaded.Nodup := by
  cases event with
  | load id =>
      obtain ⟨hid, hstep⟩ := Option.ite_none_left_eq_some.mp hstep
      obtain rfl := Option.some.inj hstep
      rw [onCompleted, setUrl_loaded]
      refine List.nodup_append.mpr ⟨h, List.nodup_singleton id, ?_⟩
      intro earlier hearlier last hlast
      obtain rfl := List.mem_singleton.mp hlast
      exact fun hsame => hid (hsame ▸ hearlier)
  | navigate id url =>
      obtain ⟨_, hstep⟩ := Option.ite_none_right_eq_some.mp hstep
      obtain rfl := Option.some.inj hstep
      rwa [setUrl_loaded]
  | jmriWebserverFound url =>
      obtain rfl := Option.some.inj hstep
      have hloaded : (session.loaded.foldl (onJmriWebserverFound url) session).loaded =
          session.loaded := by
        apply List.foldlRecOn session.loaded (onJmriWebserverFound url)
          (motive := fun found => found.loaded = session.loaded) rfl
        intro found hfound id _
        rw [onJmriWebserverFound_loaded, hfound]
      rwa [hloaded]
  | save id | clear id =>
      obtain rfl := Option.some.inj hstep
      exact h
  | restart =>
      obtain rfl := Option.some.inj hstep
      exact List.nodup_nil

/-- Discovery acts on the loaded pages and stores nothing. -/
theorem jmriWebserverFound_step {session session' : Session} {url : String}
    (hstep : session.step (.jmriWebserverFound url) = some session')
    (hloaded : session.loaded.Nodup) :
    session'.helper.settings = session.helper.settings ∧
      session'.helper.defaultURL = session.helper.defaultURL ∧
      ∀ id, session'.pages id =
        if id ∈ session.loaded then session.discovered url id else session.pages id := by
  obtain rfl := Option.some.inj hstep
  exact foldl_onJmriWebserverFound url session.loaded hloaded session

/-- Nothing changes the default URL. -/
theorem defaultURL_step {session session' : Session} {event : WebEvent}
    (hstep : session.step event = some session') (hloaded : session.loaded.Nodup) :
    session'.helper.defaultURL = session.helper.defaultURL := by
  cases event with
  | load id =>
      obtain ⟨_, hstep⟩ := Option.ite_none_left_eq_some.mp hstep
      obtain rfl := Option.some.inj hstep
      exact (setUrl_helper _ id _).2
  | navigate id url =>
      obtain ⟨_, hstep⟩ := Option.ite_none_right_eq_some.mp hstep
      obtain rfl := Option.some.inj hstep
      exact (setUrl_helper session id url).2
  | jmriWebserverFound url => exact (jmriWebserverFound_step hstep hloaded).2.1
  | save id | clear id | restart =>
      obtain rfl := Option.some.inj hstep
      rfl

/-- Only saving and clearing a page changes what is saved for it. -/
theorem saved_step {session session' : Session} {event : WebEvent}
    (hstep : session.step event = some session') (hloaded : session.loaded.Nodup) {id : Int}
    (hsave : event ≠ .save id) (hclear : event ≠ .clear id) :
    session'.helper.saved? id = session.helper.saved? id := by
  cases event with
  | load other =>
      obtain ⟨_, hstep⟩ := Option.ite_none_left_eq_some.mp hstep
      obtain rfl := Option.some.inj hstep
      exact congrFun (setUrl_helper _ other _).1 _
  | navigate other url =>
      obtain ⟨_, hstep⟩ := Option.ite_none_right_eq_some.mp hstep
      obtain rfl := Option.some.inj hstep
      exact congrFun (setUrl_helper session other url).1 _
  | jmriWebserverFound url => exact congrFun (jmriWebserverFound_step hstep hloaded).1 _
  | save other =>
      obtain rfl := Option.some.inj hstep
      exact (session.helper.saved?_save other id).trans
        (if_neg fun hother => hsave (congrArg WebEvent.save hother.symm))
  | clear other =>
      obtain rfl := Option.some.inj hstep
      exact (session.helper.saved?_clear other id).trans
        (if_neg fun hother => hclear (congrArg WebEvent.clear hother.symm))
  | restart =>
      obtain rfl := Option.some.inj hstep
      rfl

/-- What holds of every session reached: pages are cached as they are shown and
loaded once. -/
structure Reached (defaultURL : String) (session : Session) : Prop where
  cached : session.Cached
  loaded : session.loaded.Nodup
  defaultURL : session.helper.defaultURL = defaultURL

theorem Reached.step {defaultURL : String} {session session' : Session}
    (h : Reached defaultURL session) {event : WebEvent}
    (hstep : session.step event = some session') : Reached defaultURL session' where
  cached := h.cached.step hstep
  loaded := loaded_step hstep h.loaded
  defaultURL := (defaultURL_step hstep h.loaded).trans h.defaultURL

theorem reached (settings : QMap String String) (defaultURL : String) (events : List WebEvent)
    (session : Session) (h : (webPages settings defaultURL).run events = some session) :
    Reached defaultURL session := by
  refine Machine.run_induction (webPages settings defaultURL)
    (P := fun _ session => Reached defaultURL session) ?_ ?_ events session h
  · exact ⟨fun id => rfl, List.nodup_nil, rfl⟩
  · exact fun _ _ _ _ _ ih hstep => ih.step hstep

theorem Reached.runFrom {settings : QMap String String} {defaultURL : String}
    {session session' : Session} (h : Reached defaultURL session) (events : List WebEvent)
    (hrun : (webPages settings defaultURL).runFrom session events = some session') :
    Reached defaultURL session' := by
  induction events generalizing session with
  | nil => exact Option.some.inj hrun ▸ h
  | cons event events ih =>
      obtain ⟨next, hstep, hrest⟩ := (Machine.runFrom_cons _ _ _ _ _).mp hrun
      exact ih (h.step hstep) hrest

/-- Saving stores what the page shows. -/
theorem save_step {defaultURL : String} {session session' : Session}
    (h : Reached defaultURL session) {id : Int} (hstep : session.step (.save id) = some session') :
    session'.helper.saved? id = some (session.pages id).url := by
  obtain rfl := Option.some.inj hstep
  refine (session.helper.saved?_save id id).trans ?_
  rw [if_pos rfl, h.cached id]

/-- What is saved for a page stays until the page is saved or cleared. -/
theorem saved_runFrom {settings : QMap String String} {defaultURL : String}
    {session session' : Session} (h : Reached defaultURL session) (events : List WebEvent)
    (hrun : (webPages settings defaultURL).runFrom session events = some session') {id : Int}
    (hsave : .save id ∉ events) (hclear : .clear id ∉ events) :
    session'.helper.saved? id = session.helper.saved? id := by
  induction events generalizing session with
  | nil => exact Option.some.inj hrun ▸ rfl
  | cons event events ih =>
      obtain ⟨next, hstep, hrest⟩ := (Machine.runFrom_cons _ _ _ _ _).mp hrun
      rw [List.mem_cons, not_or] at hsave hclear
      exact (ih (h.step hstep) hrest hsave.2 hclear.2).trans
        (saved_step hstep h.loaded (Ne.symm hsave.1) (Ne.symm hclear.1))

/-- A page opens on its saved URL. -/
theorem load_step {session session' : Session} {id : Int} {url : String}
    (hsaved : session.helper.saved? id = some url)
    (hstep : session.step (.load id) = some session') : (session'.pages id).url = url := by
  obtain ⟨_, hstep⟩ := Option.ite_none_left_eq_some.mp hstep
  obtain rfl := Option.some.inj hstep
  rw [onCompleted, setUrl_pages, Function.update_self]
  exact SettingsHelper.defaultPageForID_of_saved hsaved

/-- A URL other than the default one is saved for the page. -/
def SavedAway (defaultURL : String) (id : Int) (session : Session) : Prop :=
  ∃ url, session.helper.saved? id = some url ∧ url ≠ defaultURL

/-- The page is not saved while it shows the default URL. -/
def NeverSavedOnDefault (settings : QMap String String) (defaultURL : String) (id : Int)
    (session : Session) (events : List WebEvent) : Prop :=
  ∀ before after middle, events = before ++ .save id :: after →
    (webPages settings defaultURL).runFrom session before = some middle →
      (middle.pages id).url ≠ defaultURL

theorem SavedAway.runFrom {settings : QMap String String} {defaultURL : String} {id : Int}
    {session session' : Session} (haway : SavedAway defaultURL id session)
    (h : Reached defaultURL session) (events : List WebEvent)
    (hrun : (webPages settings defaultURL).runFrom session events = some session')
    (hclear : .clear id ∉ events)
    (hsave : NeverSavedOnDefault settings defaultURL id session events) :
    SavedAway defaultURL id session' := by
  induction events generalizing session with
  | nil => exact Option.some.inj hrun ▸ haway
  | cons event events ih =>
      obtain ⟨next, hstep, hrest⟩ := (Machine.runFrom_cons _ _ _ _ _).mp hrun
      rw [List.mem_cons, not_or] at hclear
      refine ih ?_ (h.step hstep) hrest hclear.2 ?_
      · by_cases hevent : event = .save id
        · subst hevent
          exact ⟨_, save_step h hstep, hsave [] events session rfl rfl⟩
        · obtain ⟨url, hurl, hne⟩ := haway
          exact ⟨url, (saved_step hstep h.loaded hevent (Ne.symm hclear.1)).trans hurl, hne⟩
      · rintro before after middle rfl hmiddle
        refine hsave (event :: before) after middle rfl ?_
        exact (Machine.runFrom_cons _ _ _ _ _).mpr ⟨next, hstep, hmiddle⟩

/-- Discovery leaves a page alone that is saved away from the default URL. -/
theorem SavedAway.jmriWebserverFound {defaultURL url : String} {id : Int}
    {session session' : Session} (haway : SavedAway defaultURL id session)
    (h : Reached defaultURL session)
    (hstep : session.step (.jmriWebserverFound url) = some session') :
    (session'.pages id).url = (session.pages id).url := by
  obtain ⟨saved, hsaved, hne⟩ := haway
  have hdefault : ¬ session.helper.isUsingDefaultPageForID id := by
    rw [SettingsHelper.isUsingDefaultPageForID_iff]
    intro hall
    exact hne ((hall saved hsaved).trans h.defaultURL)
  rw [(jmriWebserverFound_step hstep h.loaded).2.2 id]
  split
  · unfold discovered
    rw [if_neg hdefault]
    split <;> rfl
  · rfl

/-- How often discovery changes the URL of a page. -/
def discoveryChanges (id : Int) (session : Session) : List WebEvent → Nat
  | [] => 0
  | event :: events =>
      match session.step event with
      | none => 0
      | some next =>
          (match event with
            | .jmriWebserverFound _ =>
                if (next.pages id).url = (session.pages id).url then 0 else 1
            | _ => 0) + discoveryChanges id next events

/-- An initialized page stays so until the restart. -/
theorem webInitialized_step {session session' : Session} {event : WebEvent}
    (hstep : session.step event = some session') (hloaded : session.loaded.Nodup)
    (hrestart : event ≠ .restart) {id : Int} (h : (session.pages id).webInitialized) :
    (session'.pages id).webInitialized := by
  cases event with
  | load other =>
      obtain ⟨_, hstep⟩ := Option.ite_none_left_eq_some.mp hstep
      obtain rfl := Option.some.inj hstep
      rw [onCompleted, setUrl_pages, Function.update_apply]
      split
      · rename_i hid
        exact hid ▸ h
      · exact h
  | navigate other url =>
      obtain ⟨_, hstep⟩ := Option.ite_none_right_eq_some.mp hstep
      obtain rfl := Option.some.inj hstep
      rw [setUrl_pages, Function.update_apply]
      split
      · rename_i hid
        exact hid ▸ h
      · exact h
  | jmriWebserverFound url =>
      rw [(jmriWebserverFound_step hstep hloaded).2.2 id]
      split
      · rwa [discovered, if_pos h]
      · exact h
  | save other | clear other =>
      obtain rfl := Option.some.inj hstep
      exact h
  | restart => exact absurd rfl hrestart

/-- Where discovery changes a page, it had not been initialized and now is. -/
theorem jmriWebserverFound_latches {session session' : Session} {url : String}
    (hstep : session.step (.jmriWebserverFound url) = some session')
    (hloaded : session.loaded.Nodup) (id : Int)
    (hchanges : (session'.pages id).url ≠ (session.pages id).url) :
    (session.pages id).webInitialized = false ∧ (session'.pages id).webInitialized = true := by
  rw [(jmriWebserverFound_step hstep hloaded).2.2 id] at hchanges ⊢
  unfold discovered at hchanges ⊢
  split at hchanges
  · rename_i hid
    rw [if_pos hid]
    split at hchanges
    · exact absurd rfl hchanges
    · rename_i hfresh
      rw [if_neg hfresh]
      refine ⟨by simpa using hfresh, ?_⟩
      split <;> rfl
  · exact absurd rfl hchanges

/-- Discovery changes a page at most once, and only before it is initialized. -/
theorem discoveryChanges_le {defaultURL : String} {session : Session}
    (h : Reached defaultURL session) (events : List WebEvent) (hrestart : .restart ∉ events)
    (id : Int) :
    discoveryChanges id session events ≤ if (session.pages id).webInitialized then 0 else 1 := by
  induction events generalizing session with
  | nil => exact Nat.zero_le _
  | cons event events ih =>
      rw [List.mem_cons, not_or] at hrestart
      unfold discoveryChanges
      cases hstep : session.step event with
      | none => exact Nat.zero_le _
      | some next =>
          have hrest := ih (h.step hstep) hrestart.2
          have hlatch : (session.pages id).webInitialized → (next.pages id).webInitialized :=
            webInitialized_step hstep h.loaded (Ne.symm hrestart.1)
          -- The bound of the rest never exceeds the bound of the whole.
          have hbound : discoveryChanges id next events ≤
              if (session.pages id).webInitialized then 0 else 1 := by
            refine Nat.le_trans hrest ?_
            split
            · exact Nat.zero_le _
            · rename_i hnot
              exact Nat.le_of_eq (if_neg fun hinitialized => hnot (hlatch hinitialized)).symm
          cases event with
          | jmriWebserverFound url =>
              by_cases hsame : (next.pages id).url = (session.pages id).url
              · simpa [hsame] using hbound
              · obtain ⟨hbefore, hafter⟩ :=
                  jmriWebserverFound_latches hstep h.loaded id hsame
                rw [if_pos hafter] at hrest
                simp only [hsame, hbefore, Bool.false_eq_true, if_false]
                omega
          | load _ | navigate _ _ | save _ | clear _ | restart => simpa using hbound

/-- An event about one page leaves what is saved, cached and shown of every
other page. -/
theorem other_page_step {session session' : Session} {event : WebEvent} {id other : Int}
    (hstep : session.step event = some session') (hpage : event.page? = some id)
    (hother : other ≠ id) :
    session'.helper.saved? other = session.helper.saved? other ∧
      session'.helper.cached other = session.helper.cached other ∧
      session'.pages other = session.pages other := by
  have hurl (before : Session) (url : String) :
      (before.setUrl id url).helper.saved? other = before.helper.saved? other ∧
        (before.setUrl id url).helper.cached other = before.helper.cached other ∧
        (before.setUrl id url).pages other = before.pages other := by
    have honly := before.setUrl_onlyPage id url
    exact ⟨congrFun honly.settings _, honly.cached other hother, honly.pages other hother⟩
  cases event with
  | load page =>
      obtain rfl := Option.some.inj hpage
      obtain ⟨_, hstep⟩ := Option.ite_none_left_eq_some.mp hstep
      obtain rfl := Option.some.inj hstep
      exact hurl _ _
  | navigate page url =>
      obtain rfl := Option.some.inj hpage
      obtain ⟨_, hstep⟩ := Option.ite_none_right_eq_some.mp hstep
      obtain rfl := Option.some.inj hstep
      exact hurl _ _
  | save page =>
      obtain rfl := Option.some.inj hpage
      obtain rfl := Option.some.inj hstep
      exact ⟨(session.helper.saved?_save page other).trans (if_neg hother), rfl, rfl⟩
  | clear page =>
      obtain rfl := Option.some.inj hpage
      obtain rfl := Option.some.inj hstep
      exact ⟨(session.helper.saved?_clear page other).trans (if_neg hother), rfl, rfl⟩
  | jmriWebserverFound _ | restart => cases hpage

/-- Over any number of sessions: a save stores what the page shows and later
sessions open it; a page saved away from the default URL is safe from discovery
until it is cleared or saved on the default URL; discovery changes a page at
most once in a session; and pages are independent of each other. -/
theorem saved_page_wins (settings : QMap String String) (defaultURL : String) :
    (∀ events session id saved,
      (webPages settings defaultURL).run events = some session →
        session.step (.save id) = some saved →
          saved.helper.saved? id = some (session.pages id).url ∧
          ∀ later reopened final,
            (webPages settings defaultURL).runFrom saved later = some reopened →
              .save id ∉ later → .clear id ∉ later →
                reopened.step (.load id) = some final →
                  (final.pages id).url = (session.pages id).url) ∧
    (∀ events session id later current url next,
      (webPages settings defaultURL).run events = some session →
        SavedAway defaultURL id session →
          (webPages settings defaultURL).runFrom session later = some current →
            .clear id ∉ later → NeverSavedOnDefault settings defaultURL id session later →
              current.step (.jmriWebserverFound url) = some next →
                (next.pages id).url = (current.pages id).url) ∧
    (∀ events session id later,
      (webPages settings defaultURL).run events = some session → .restart ∉ later →
        discoveryChanges id session later ≤ 1) ∧
    ∀ (session session' : Session) (event : WebEvent) (id other : Int),
      session.step event = some session' → event.page? = some id → other ≠ id →
        session'.helper.saved? other = session.helper.saved? other ∧
          session'.helper.cached other = session.helper.cached other ∧
          session'.pages other = session.pages other := by
  refine ⟨?_, ?_, ?_, ?_⟩
  · intro events session id saved hrun hsave
    have hreached := reached settings defaultURL events session hrun
    have hstored := save_step hreached hsave
    refine ⟨hstored, ?_⟩
    intro later reopened final hlater hsaves hclears hload
    have hkept := saved_runFrom (hreached.step hsave) later hlater hsaves hclears
    exact load_step (hkept.trans hstored) hload
  · intro events session id later current url next hrun haway hlater hclear hsave hfound
    have hreached := reached settings defaultURL events session hrun
    exact (haway.runFrom hreached later hlater hclear hsave).jmriWebserverFound
      (hreached.runFrom later hlater) hfound
  · intro events session id later hrun hrestart
    have hle := discoveryChanges_le (reached settings defaultURL events session hrun) later
      hrestart id
    refine Nat.le_trans hle ?_
    split <;> omega
  · intro session session' event id other hstep hpage hother
    exact other_page_step hstep hpage hother

/-- A page saved in one session, opened and left alone in the next. -/
theorem panel_wins :
    ∃ saved current next,
      (webPages .empty "file:///tmp/no-jmri.html").run
        [.load 0, .navigate 0 "http://club/panel", .save 0] = some saved ∧
      (webPages .empty "file:///tmp/no-jmri.html").runFrom saved [.restart, .load 0] =
        some current ∧
      current.step (.jmriWebserverFound "http://10.0.0.5:12080") = some next ∧
      (next.pages 0).url = (current.pages 0).url := by
  refine ⟨_, _, _, rfl, rfl, rfl, ?_⟩
  refine (saved_page_wins .empty "file:///tmp/no-jmri.html").2.1
    [.load 0, .navigate 0 "http://club/panel", .save 0] _ 0 [.restart, .load 0] _
    "http://10.0.0.5:12080" _ rfl ⟨"http://club/panel", rfl, by decide⟩ rfl (by decide) ?_ rfl
  intro before after middle hsplit
  have hmem : WebEvent.save 0 ∈ [WebEvent.restart, .load 0] := hsplit ▸ by simp
  exact absurd hmem (by decide)

/-- A page saved away from the default URL and later, without being cleared,
saved on it: discovery replaces it. -/
theorem replaced_after_saving_default :
    ∃ saved current next,
      (webPages .empty "file:///tmp/no-jmri.html").run
        [.load 0, .navigate 0 "http://club/panel", .save 0] = some saved ∧
      saved.helper.saved? 0 = some "http://club/panel" ∧
      (webPages .empty "file:///tmp/no-jmri.html").runFrom saved
        [.restart, .load 0, .navigate 0 "file:///tmp/no-jmri.html", .save 0] = some current ∧
      current.step (.jmriWebserverFound "http://10.0.0.5:12080") = some next ∧
      (current.pages 0).url = "file:///tmp/no-jmri.html" ∧
      (next.pages 0).url = "http://10.0.0.5:12080" :=
  ⟨_, _, _, rfl, rfl, rfl, rfl, rfl, rfl⟩

end Session

end NvmrDisplay.Web
