import Mathlib.Data.List.Sort
import RFObserver.Lib.KeyedMail
import RFObserver.Web.LiveBroadcast

/-! The fleet's live hub: a browser has mail with the newest message of each
sensor and kind, and gets a sensor's axis only when it lacks it. -/

namespace RFObserver

/-- A message to the browsers. `made` tells one object from the others, and `axis`
is the axis the hub held for the sensor when it made a frame. -/
structure HubMessage (J : Type*) where
  kind : String
  id : String
  mode : Option String
  t : Option ℚ
  rest : J
  made : ℕ
  axis : Option (List ℚ)
  deriving DecidableEq

namespace HubMessage

variable {J : Type*} (m : HubMessage J)

def isPsd : Bool := m.kind == "psd"

/-- A message that is no frame. -/
def note (kind id : String) (rest : J) : HubMessage J := ⟨kind, id, none, none, rest, 0, none⟩

end HubMessage

/-- What the hub uses of a sensor's frame; `rest` is what else goes to the browsers. -/
structure SensorFrame (J : Type*) where
  frequencies : Option (List ℚ)
  mode : Option String
  t : Option ℚ
  rest : J

/-- A sensor's newest frames, by mode, its axis, and the texts of those frames, by
mode and by whether they carry the axis. -/
structure LiveFeed (J T : Type*) where
  frames : Dict (Option String) (HubMessage J)
  frequencies : Option (List ℚ)
  encoded : Dict (Option String × Bool) T

namespace LiveFeed

variable {J T : Type*} (feed : LiveFeed J T)

def create : LiveFeed J T := ⟨.empty, none, .empty⟩

/-- The axis after a frame. -/
def axisAfter (data : SensorFrame J) : Option (List ℚ) :=
  if (axisSig data.frequencies).isSome then data.frequencies else feed.frequencies

def frameOf (id : String) (made : ℕ) (data : SensorFrame J) : HubMessage J :=
  ⟨"psd", id, data.mode, data.t, data.rest, made, feed.axisAfter data⟩

/-- `_handle` of a frame, but for its publication. -/
def handle (id : String) (made : ℕ) (data : SensorFrame J) : LiveFeed J T where
  frames := feed.frames.modify data.mode (feed.frameOf id made data) fun _ => feed.frameOf id made data
  frequencies := feed.axisAfter data
  encoded := (feed.encoded.erase (data.mode, true)).erase (data.mode, false)

end LiveFeed

/-- A text sent to a browser: the axis put into it, and the axis that the hub held
for the sensor then. -/
structure HubText (J T : Type*) where
  message : HubMessage J
  freqs : Option (List ℚ)
  current : Option (List ℚ)
  text : T

/-- A browser: whether it is published to and whether its send loop runs. `batch` are
the messages taken and not sent yet, `received` the texts sent. -/
structure LiveViewer (J T : Type*) where
  joined : Bool
  sending : Bool
  mail : KeyedMail (String × String) (HubMessage J)
  batch : List (HubMessage J)
  freqSig : Dict String (ℕ × ℚ × ℚ)
  highRes : Bool
  everHighRes : Bool
  received : List (HubText J T)

namespace LiveViewer

variable {J T : Type*} (viewer : LiveViewer J T)

def create : LiveViewer J T := ⟨true, true, .empty, [], .empty, false, false, []⟩

/-- Whether it takes frames of a mode; sensors that give none have only one stream. -/
def wants (mode : Option String) : Bool :=
  if mode = some "high_res" then viewer.highRes
  else if mode = some "averaged" then !viewer.highRes
  else true

def put (key : String × String) (m : HubMessage J) : LiveViewer J T := { viewer with mail := viewer.mail.put key m }

/-- Queued frames of the old mode are dropped. -/
def setHighRes (on : Bool) : LiveViewer J T :=
  if viewer.highRes = on then viewer
  else { viewer with
    highRes := on
    everHighRes := viewer.everHighRes || on
    mail := viewer.mail.remove fun key => key.2 == "psd" }

def stop : LiveViewer J T := { viewer with sending := false }

def leave : LiveViewer J T := { viewer with joined := false }

/-- The newest frame of the mode it takes. -/
def frameFor (feed : LiveFeed J T) : Option (HubMessage J) :=
  ((feed.frames.entries.map Prod.snd).insertionSort fun a b => b.t.getD 0 ≤ a.t.getD 0).find? fun frame =>
    viewer.wants frame.mode

/-- The next message of its batch, sent as `r`. -/
def advance (r : HubText J T) (taken : Bool) : LiveViewer J T :=
  if taken then { viewer with batch := viewer.batch.tail, received := viewer.received ++ [r] }
  else { viewer with batch := viewer.batch.tail, sending := false }

end LiveViewer

structure LiveHub (J T : Type*) where
  feeds : Dict String (LiveFeed J T)
  viewers : List (LiveViewer J T)
  made : ℕ

namespace LiveHub

variable {J T : Type*} (hub : LiveHub J T)

def create : LiveHub J T := ⟨.empty, [], 0⟩

/-- What a browser is told of a feed when it joins. -/
def greet (status : String → J) (history : String → Option J) (viewer : LiveViewer J T)
    (feed : String × LiveFeed J T) : LiveViewer J T :=
  let told := viewer.put (feed.1, "status") (.note "status" feed.1 (status feed.1))
  let drawn := (history feed.1).elim told fun points =>
    told.put (feed.1, "power_history") (.note "power_history" feed.1 points)
  (drawn.frameFor feed.2).elim drawn fun frame => drawn.put (feed.1, "psd") frame

/-- Whether a message goes to a browser. -/
def offers (m : HubMessage J) (viewer : LiveViewer J T) : Bool := viewer.joined && (!m.isPsd || viewer.wants m.mode)

def publish (key : String × String) (m : HubMessage J) : LiveHub J T :=
  { hub with viewers := hub.viewers.map fun viewer => if offers m viewer then viewer.put key m else viewer }

/-- The feeds of the sensors wanted, and no others. -/
def wanted (ids : List String) : Dict String (LiveFeed J T) :=
  ids.foldl (fun feeds id => feeds.modify id .create fun feed => feed)
    ((hub.feeds.entries.map Prod.fst).foldl (fun feeds id => if id ∈ ids then feeds else feeds.erase id) hub.feeds)

/-- `_reconcile`; the roster is published if it has changed. -/
def reconcile (ids : List String) (changed : Bool) (roster : J) : LiveHub J T :=
  let hub := { hub with feeds := hub.wanted ids }
  if changed then hub.publish ("*", "sensors") (.note "sensors" "" roster) else hub

/-- A browser that has joined. -/
def greeted (changed : Bool) (roster : J) (status : String → J) (history : String → Option J) : LiveViewer J T :=
  let viewer : LiveViewer J T :=
    if changed then LiveViewer.create.put ("*", "sensors") (.note "sensors" "" roster) else .create
  hub.feeds.entries.foldl (greet status history) (viewer.put ("*", "sensors") (.note "sensors" "" roster))

def join (ids : List String) (changed : Bool) (roster : J) (status : String → J) (history : String → Option J) :
    LiveHub J T :=
  let hub := hub.reconcile ids changed roster
  { hub with viewers := hub.viewers ++ [hub.greeted changed roster status history] }

def handle (id : String) (data : SensorFrame J) : Option (LiveHub J T) :=
  (hub.feeds.get? id).map fun feed =>
    publish { hub with
        feeds := hub.feeds.modify id feed fun feed => feed.handle id hub.made data, made := hub.made + 1 }
      (id, "psd") (feed.frameOf id hub.made data)

/-- The axis the hub holds for a frame's sensor. -/
def axisOf (m : HubMessage J) : Option (List ℚ) :=
  if m.isPsd then (hub.feeds.get? m.id).bind LiveFeed.frequencies else none

/-- `_axis_for`: the axis, if the browser lacks it. -/
def axisFor (viewer : LiveViewer J T) (m : HubMessage J) : Option (List ℚ) :=
  if (axisSig (hub.axisOf m)).isSome ∧ viewer.freqSig.get? m.id ≠ axisSig (hub.axisOf m) then hub.axisOf m else none

/-- The browser, once `_axis_for` has noted what it gets. -/
def noted (viewer : LiveViewer J T) (m : HubMessage J) : LiveViewer J T :=
  (axisSig (hub.axisFor viewer m)).elim viewer fun sig =>
    { viewer with freqSig := viewer.freqSig.modify m.id sig fun _ => sig }

variable [DecidableEq J] (dumps : HubMessage J → Option (List ℚ) → T)

/-- The feed whose current frame a message is. -/
def currentFeed (m : HubMessage J) : Option (LiveFeed J T) :=
  if m.isPsd then (hub.feeds.get? m.id).filter fun feed => feed.frames.get? m.mode = some m else none

/-- `encode`: the text, and the hub with the texts then kept. -/
def encode (viewer : LiveViewer J T) (m : HubMessage J) : T × LiveHub J T :=
  let freqs := hub.axisFor viewer m
  let key := (m.mode, freqs.isSome)
  (hub.currentFeed m).elim (dumps m freqs, hub) fun feed =>
    let held := feed.encoded.get? key
    let text := held.getD (dumps m freqs)
    let kept : LiveFeed J T :=
      if held.isSome then feed else { feed with encoded := feed.encoded.modify key text fun _ => text }
    (text, { hub with feeds := hub.feeds.modify m.id kept fun _ => kept })

/-- A browser once a message of its batch is sent to it. -/
def sendTo (viewer : LiveViewer J T) (m : HubMessage J) (taken : Bool) : LiveViewer J T :=
  (hub.noted viewer m).advance ⟨m, hub.axisFor viewer m, hub.axisOf m, (hub.encode dumps viewer m).1⟩ taken

/-- What happens at the hub: among others a frame comes from a sensor, and a browser
takes its mail, is sent the next message of it, or is gone. -/
inductive Act (J : Type*)
  | join (ids : List String) (changed : Bool) (roster : J) (status : String → J) (history : String → Option J)
  | leave (i : ℕ)
  | setHighRes (i : ℕ) (on : Bool)
  | reconcile (ids : List String) (changed : Bool) (roster : J)
  | handle (id : String) (data : SensorFrame J)
  | status (id : String) (rest : J)
  | tick (rest : J)
  | take (i : ℕ)
  | send (i : ℕ) (taken : Bool)
  | stop (i : ℕ)

/-- A browser takes its mail, once the batch before is sent. -/
def take (i : ℕ) : Option (LiveHub J T) :=
  hub.viewers[i]?.bind fun viewer =>
    if viewer.sending ∧ viewer.batch = [] then
      viewer.mail.take.map fun mail =>
        { hub with viewers := hub.viewers.set i { viewer with batch := mail.1, mail := mail.2 } }
    else none

def send (i : ℕ) (taken : Bool) : Option (LiveHub J T) :=
  hub.viewers[i]?.bind fun viewer => viewer.batch.head?.bind fun m =>
    if viewer.sending then
      some { (hub.encode dumps viewer m).2 with viewers := hub.viewers.set i (hub.sendTo dumps viewer m taken) }
    else none

/-- Something a browser does, if it can. -/
def update (i : ℕ) (can : LiveViewer J T → Bool) (change : LiveViewer J T → LiveViewer J T) : Option (LiveHub J T) :=
  hub.viewers[i]?.bind fun viewer =>
    if can viewer then some { hub with viewers := hub.viewers.set i (change viewer) } else none

def step : LiveHub J T → Act J → Option (LiveHub J T)
  | hub, .join ids changed roster status history => some (hub.join ids changed roster status history)
  | hub, .leave i => hub.update i (fun viewer => !viewer.sending) LiveViewer.leave
  | hub, .setHighRes i on => hub.update i LiveViewer.joined fun viewer => viewer.setHighRes on
  | hub, .reconcile ids changed roster => some (hub.reconcile ids changed roster)
  | hub, .handle id data => hub.handle id data
  | hub, .status id rest => some (hub.publish (id, "status") (.note "status" id rest))
  | hub, .tick rest => some (hub.publish ("*", "tick") (.note "tick" "" rest))
  | hub, .take i => hub.take i
  | hub, .send i taken => hub.send dumps i taken
  | hub, .stop i => hub.update i LiveViewer.sending LiveViewer.stop

end LiveHub

end RFObserver
