import NvmrDisplay.Qml.VideoForm
import Mathlib.Data.List.Nodup
import Mathlib.Data.List.Pairwise
import Mathlib.Data.Fintype.Fin
import Mathlib.Tactic.FinCases

/-!
What the video page is for, stated without QML: one video, or four quads that
are filled in turn, and the remaining tiles at the side. A `Screen` cannot hold
two tiles in a slot, tiles in the hidden view or a counter out of range, so
these properties of the page follow from `toForm` once every handler is shown
to act on the page as the corresponding operation acts on the screen.
-/

namespace NvmrDisplay.Qml

inductive View where
  | single (main : Option NVMRVideo)
  | multi (quads : Fin 4 → Option NVMRVideo) (next : Fin 4)

structure Screen where
  view : View
  others : List NVMRVideo
  created : Nat

namespace View

def quadTiles (quads : Fin 4 → Option NVMRVideo) : List NVMRVideo :=
  (quads 0).toList ++ (quads 1).toList ++ (quads 2).toList ++ (quads 3).toList

/-- The tiles in the slots of the view. -/
def tiles : View → List NVMRVideo
  | .single main => main.toList
  | .multi quads _ => quadTiles quads

/-- What a container of the page holds, the list at the side apart. -/
def slot : View → Container → Option NVMRVideo
  | .single main, .mainVideo => main
  | .multi quads _, .quad1 => quads 0
  | .multi quads _, .quad2 => quads 1
  | .multi quads _, .quad3 => quads 2
  | .multi quads _, .quad4 => quads 3
  | _, _ => none

/-- What a quad of the view holds. -/
def quad : View → Fin 4 → Option NVMRVideo
  | .single _, _ => none
  | .multi quads _, i => quads i

/-- The quad whose turn it is. -/
def next : View → Fin 4
  | .single _ => 0
  | .multi _ next => next

def isSingle : View → Bool
  | .single _ => true
  | .multi _ _ => false

def counter : View → Int
  | .single _ => 0
  | .multi _ next => next.val

def removeCamera (uniqueName : String) : View → View
  | .single main => .single (main.filter fun video => video.uniqueName != uniqueName)
  | .multi quads next =>
      .multi (fun i => (quads i).filter fun video => video.uniqueName != uniqueName) next

end View

namespace Screen

def initial : Screen := ⟨.multi (fun _ => none) 0, [], 0⟩

def tiles (screen : Screen) : List NVMRVideo := screen.view.tiles ++ screen.others

/-- Every tile is a different object, made by an earlier `createObject`. -/
structure Distinct (screen : Screen) : Prop where
  nodup : (screen.tiles.map NVMRVideo.id).Nodup
  fresh : ∀ video ∈ screen.tiles, video.id < screen.created

def addCamera (screen : Screen) (url uniqueName videoName : String) : Screen :=
  { screen with
    others := screen.others ++
      [{ id := screen.created, videoName, videoSource := url, uniqueName }]
    created := screen.created + 1 }

def removeCamera (screen : Screen) (uniqueName : String) : Screen :=
  { screen with
    view := screen.view.removeCamera uniqueName
    others := screen.others.filter fun video => video.uniqueName != uniqueName }

/-- A tile from the side takes the main slot, or the quad whose turn it is; the
tile it replaces goes to the side. -/
def choose (screen : Screen) (video : NVMRVideo) : Screen :=
  match screen.view with
  | .single main =>
      { screen with
        view := .single (some video)
        others := (screen.others ++ main.toList).erase video }
  | .multi quads next =>
      { screen with
        view := .multi (Function.update quads next (some video)) (next + 1)
        others := (screen.others ++ (quads next).toList).erase video }

def click (screen : Screen) (id : Nat) : Screen :=
  match screen.others.find? fun video => video.id = id with
  | some video => screen.choose video
  | none => screen

/-- The main video keeps its place on the screen, in the first quad. -/
def showQuads (screen : Screen) : Screen :=
  match screen.view with
  | .multi _ _ => screen
  | .single none => { screen with view := .multi (fun _ => none) 0 }
  | .single (some video) =>
      { screen with view := .multi (Function.update (fun _ => none) 0 (some video)) 1 }

/-- The first quad becomes the main video and the other three go to the side. -/
def showMain (screen : Screen) : Screen :=
  match screen.view with
  | .single _ => screen
  | .multi quads _ =>
      { screen with
        view := .single (quads 0)
        others := screen.others ++ (quads 1).toList ++ (quads 2).toList ++
          (quads 3).toList }

def handle (screen : Screen) : FormEvent → Screen
  | .rtspFound url uniqueName videoName => screen.addCamera url uniqueName videoName
  | .rtspWentAway uniqueName => screen.removeCamera uniqueName
  | .click id => screen.click id
  | .multi => screen.showQuads
  | .single => screen.showMain

/-- The page that shows a screen. -/
def toForm (screen : Screen) : VideoForm where
  children
    | .otherVideos => screen.others
    | container => (screen.view.slot container).toList
  mainVideoVisible := screen.view.isSingle
  quadVideoVisible := !screen.view.isSingle
  quadVideoNumber := screen.view.counter
  createdObjects := screen.created

end Screen

end NvmrDisplay.Qml
