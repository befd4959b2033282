import NvmrDisplay.Qt

/-!
`SettingsHelper`: the persistent default page of each web page, and a cache of
what each page shows. `QSettings` returns the strings it was given. Keys are
texts made of the page number, so pages are apart because numbers print apart.
-/

namespace NvmrDisplay.Web

structure SettingsHelper where
  settings : QMap String String
  defaultURL : String
  currentURLs : QMap Int String

namespace SettingsHelper

def key (id : Int) : String :=
  "url/number_" ++ QString.number id

def defaultPageForID (sh : SettingsHelper) (id : Int) : String :=
  sh.settings.value (key id) sh.defaultURL

def cacheDefaultPageForID (sh : SettingsHelper) (id : Int) (url : String) : SettingsHelper :=
  { sh with currentURLs := sh.currentURLs.insert id url }

/-- `m_currentURLs[id]` is the empty string for a page without an entry. -/
def saveDefaultPageForID (sh : SettingsHelper) (id : Int) : SettingsHelper :=
  { sh with settings := sh.settings.insert (key id) (sh.currentURLs.value id "") }

def clearDefaultPageForID (sh : SettingsHelper) (id : Int) : SettingsHelper :=
  { sh with settings := sh.settings.remove (key id) }

def isUsingDefaultPageForID (sh : SettingsHelper) (id : Int) : Bool :=
  sh.settings.value (key id) sh.defaultURL == sh.defaultURL

/-- A new session starts from the stored settings alone. -/
def restart (sh : SettingsHelper) : SettingsHelper :=
  { sh with currentURLs := .empty }

/-- The URL saved for a page. -/
def saved? (sh : SettingsHelper) (id : Int) : Option String :=
  sh.settings.find (key id)

def cached (sh : SettingsHelper) (id : Int) : String :=
  sh.currentURLs.value id ""

theorem key_injective {id other : Int} (h : key id = key other) : id = other := by
  have hnumber : QString.number id = QString.number other := by
    have htext := congrArg String.toList h
    simp only [key, String.toList_append] at htext
    exact String.toList_inj.mp (List.append_cancel_left htext)
  exact QString.number_injective hnumber

theorem saved?_save (sh : SettingsHelper) (id other : Int) :
    (sh.saveDefaultPageForID id).saved? other =
      if other = id then some (sh.cached id) else sh.saved? other := by
  rw [saved?, saveDefaultPageForID, QMap.find_insert]
  by_cases hid : other = id
  · simp [hid, cached]
  · rw [if_neg hid, if_neg fun hkey => hid (key_injective hkey)]
    rfl

theorem saved?_clear (sh : SettingsHelper) (id other : Int) :
    (sh.clearDefaultPageForID id).saved? other =
      if other = id then none else sh.saved? other := by
  rw [saved?, clearDefaultPageForID, QMap.find_remove]
  by_cases hid : other = id
  · simp [hid]
  · rw [if_neg hid, if_neg fun hkey => hid (key_injective hkey)]
    rfl

theorem cached_cache (sh : SettingsHelper) (id other : Int) (url : String) :
    (sh.cacheDefaultPageForID id url).cached other =
      if other = id then url else sh.cached other := by
  simp only [cached, cacheDefaultPageForID, QMap.value, QMap.find_insert]
  split <;> rfl

theorem defaultPageForID_of_saved {sh : SettingsHelper} {id : Int} {url : String}
    (h : sh.saved? id = some url) : sh.defaultPageForID id = url := by
  simp only [saved?] at h
  simp [defaultPageForID, QMap.value, h]

/-- A page saved on the default URL counts as using the default page. -/
theorem isUsingDefaultPageForID_iff (sh : SettingsHelper) (id : Int) :
    sh.isUsingDefaultPageForID id ↔ ∀ url, sh.saved? id = some url → url = sh.defaultURL := by
  simp only [isUsingDefaultPageForID, QMap.value, beq_iff_eq, saved?]
  cases sh.settings.find (key id) <;> simp

end SettingsHelper

end NvmrDisplay.Web
