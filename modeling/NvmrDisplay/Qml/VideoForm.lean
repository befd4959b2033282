import NvmrDisplay.Lib.IndexLoop

/-!
The video page, `qml/VideoForm.qml`, with the tiles of `qml/NVMRVideo.qml`.

The state is the ordered list of tiles in each container, the two visible
flags and the round-robin counter. Assigning `item.parent` removes the item
from its old container and appends it to the new one at once, so the index
loops below walk over lists they shorten. `destroy()` takes effect when the
handler returns. The fixed children of `otherVideos` (its title, the two
buttons and the rule under them) carry no `uniqueName`, so no handler moves or
destroys them; they are left out, as are sizes and anchors, which no handler
reads.
-/

namespace NvmrDisplay.Qml

open Lib

/-- An `NVMRVideo` object. `id` is the identity of the QML object. -/
structure NVMRVideo where
  id : Nat
  videoName : String
  videoSource : String
  uniqueName : String
  deriving DecidableEq, Repr

inductive Container where
  | mainVideo
  | quad1
  | quad2
  | quad3
  | quad4
  | otherVideos
  deriving DecidableEq, Repr

def Container.all : List Container :=
  [.mainVideo, .quad1, .quad2, .quad3, .quad4, .otherVideos]

@[ext]
structure VideoForm where
  children : Container → List NVMRVideo
  mainVideoVisible : Bool
  quadVideoVisible : Bool
  quadVideoNumber : Int
  /-- How many objects `createObject` has made; the identity of the next one. -/
  createdObjects : Nat

/-- What the page reacts to: the two signals of `serviceDiscover`, a click on
a tile and the two buttons. -/
inductive FormEvent where
  | rtspFound (url uniqueName videoName : String)
  | rtspWentAway (uniqueName : String)
  | click (id : Nat)
  | multi
  | single
  deriving DecidableEq, Repr

namespace VideoForm

def initial : VideoForm where
  children _ := []
  mainVideoVisible := false
  quadVideoVisible := true
  quadVideoNumber := 0
  createdObjects := 0

/-- All tiles on the page, container by container. -/
def tiles (form : VideoForm) : List NVMRVideo :=
  Container.all.flatMap form.children

/-- Reading `video.parent`. -/
def parent (form : VideoForm) (video : NVMRVideo) : Option Container :=
  Container.all.find? fun container => video ∈ form.children container

/-- Assigning `video.parent = container`. -/
def setParent (form : VideoForm) (video : NVMRVideo) (container : Container) : VideoForm :=
  if form.parent video = some container then form
  else
    { form with
      children := fun other =>
        if other = container then form.children other ++ [video]
        else (form.children other).erase video }

/-- One iteration of the loops that move the children of `source` to
`otherVideos`. The second component is the last `videoToReparent`. -/
def reparentStep (source : Container) (i : Nat) (state : VideoForm × Option NVMRVideo) :
    VideoForm × Option NVMRVideo :=
  match (state.1.children source)[i]? with
  | some videoToReparent =>
      (state.1.setParent videoToReparent .otherVideos, some videoToReparent)
  | none => state

def reparentChildren (form : VideoForm) (source : Container) :
    VideoForm × Option NVMRVideo :=
  IndexLoop.run (fun state => (state.1.children source).length) (reparentStep source)
    (form, none)

/-- The quad that the counter selects; `undefined` for any other number. -/
def correctQuad (quadVideoNumber : Int) : Option Container :=
  if quadVideoNumber = 0 then some .quad1
  else if quadVideoNumber = 1 then some .quad2
  else if quadVideoNumber = 2 then some .quad3
  else if quadVideoNumber = 3 then some .quad4
  else none

def addToQuadVideo (form : VideoForm) (video : NVMRVideo) : VideoForm :=
  let counted := { form with
    quadVideoNumber :=
      if form.quadVideoNumber + 1 = 4 then 0 else form.quadVideoNumber + 1 }
  match correctQuad form.quadVideoNumber with
  | some quad => (counted.reparentChildren quad).1.setParent video quad
  -- Reading `correctQuad.children` of `undefined` throws and ends the handler.
  | none => counted

def videoClicked (form : VideoForm) (video : Option NVMRVideo) : VideoForm :=
  match video with
  | none => form
  | some video =>
      if form.mainVideoVisible && form.parent video != some .mainVideo then
        (form.reparentChildren .mainVideo).1.setParent video .mainVideo
      else if form.quadVideoVisible &&
          form.parent video != some .quad1 &&
          form.parent video != some .quad2 &&
          form.parent video != some .quad3 &&
          form.parent video != some .quad4 then
        form.addToQuadVideo video
      else form

/-- A click on the tile with this identity, if it is still on the page. -/
def clicked (form : VideoForm) (id : Nat) : VideoForm :=
  match form.tiles.find? fun video => video.id = id with
  | some video => form.videoClicked (some video)
  | none => form

/-- `onClicked` of the button "Multi". -/
def multiClicked (form : VideoForm) : VideoForm :=
  if form.quadVideoVisible then form
  else
    let shown := { form with quadVideoVisible := true, mainVideoVisible := false }
    let (moved, newSingleVideo) := shown.reparentChildren .mainVideo
    moved.videoClicked newSingleVideo

/-- `onClicked` of the button "Single". -/
def singleClicked (form : VideoForm) : VideoForm :=
  if form.mainVideoVisible then form
  else
    let shown := { form with
      quadVideoVisible := false
      mainVideoVisible := true
      quadVideoNumber := 0 }
    let (moved1, newSingleVideo) := shown.reparentChildren .quad1
    let (moved2, _) := moved1.reparentChildren .quad2
    let (moved3, _) := moved2.reparentChildren .quad3
    let (moved4, _) := moved3.reparentChildren .quad4
    moved4.videoClicked newSingleVideo

def onRpiVideoSenderRtspFound (form : VideoForm) (url uniqueName videoName : String) :
    VideoForm :=
  let video : NVMRVideo :=
    { id := form.createdObjects, videoName, videoSource := url, uniqueName }
  { form with
    children := fun container =>
      if container = .otherVideos then form.children container ++ [video]
      else form.children container
    createdObjects := form.createdObjects + 1 }

/-- The loop over `container` that calls `destroy()` on the tiles of a camera.
Destruction is deferred, so the loop leaves the children alone and only adds
to the objects that are gone when the handler returns. -/
def destroyLoop (form : VideoForm) (uniqueName : String) (destroyed : List NVMRVideo)
    (container : Container) : List NVMRVideo :=
  IndexLoop.run (fun _ => (form.children container).length)
    (IndexLoop.collect (form.children container) fun video => video.uniqueName == uniqueName)
    destroyed

def onRpiVideoSenderRtspWentAway (form : VideoForm) (uniqueName : String) : VideoForm :=
  let shown : List Container :=
    if form.mainVideoVisible then [.mainVideo]
    else if form.quadVideoVisible then [.quad1, .quad2, .quad3, .quad4]
    else []
  let destroyed := (shown ++ [Container.otherVideos]).foldl (form.destroyLoop uniqueName) []
  { form with
    children := fun container =>
      (form.children container).filter fun video => video ∉ destroyed }

def handle (form : VideoForm) : FormEvent → VideoForm
  | .rtspFound url uniqueName videoName =>
      form.onRpiVideoSenderRtspFound url uniqueName videoName
  | .rtspWentAway uniqueName => form.onRpiVideoSenderRtspWentAway uniqueName
  | .click id => form.clicked id
  | .multi => form.multiClicked
  | .single => form.singleClicked

def runFrom (form : VideoForm) (events : List FormEvent) : VideoForm :=
  events.foldl handle form

/-- The page after any sequence of events from its initial state. -/
def run (events : List FormEvent) : VideoForm :=
  initial.runFrom events

end VideoForm

end NvmrDisplay.Qml
