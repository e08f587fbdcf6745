import RFObserver.Lib.BoundedDict
import RFObserver.Lib.RoundHalfEven

/-! The sensor's live channel: frames are queued for each client, and sent
without the parts the client holds. Frames are objects, named by their place
among the objects made so far. -/

namespace RFObserver

/-- A message of the channel. `frequencies` and `noiseFloor` are none where the
message has no such list, `rest` is what stands under all other keys. -/
structure LiveMessage (J : Type*) where
  kind : String
  mode : Option String
  frequencies : Option (List ℚ)
  noiseFloor : Option (List ℚ)
  powers : Option (List ℚ)
  maxPowers : Option (List ℚ)
  gridRows : Option J
  rest : J

/-- The keys of a frame that a client has: `_client_drops`. -/
structure Drops where
  frequencies : Bool
  noiseFloor : Bool
  deriving DecidableEq

/-- Whether an axis is another one: its length and its ends. -/
def axisSig (freqs : Option (List ℚ)) : Option (ℕ × ℚ × ℚ) :=
  freqs.bind fun fs => fs.head?.map fun first => (fs.length, first, fs.getLastD first)

namespace LiveMessage

variable {J : Type*} (m : LiveMessage J)

def isPsd : Bool := m.kind == "psd"

def without (drops : Drops) : LiveMessage J :=
  { m with
    frequencies := if drops.frequencies then none else m.frequencies
    noiseFloor := if drops.noiseFloor then none else m.noiseFloor }

/-- To 0.1 dB. -/
def roundDb (values : List ℚ) : List ℚ := values.map fun x => roundHalfEven (x * 10) / 10

/-- What the clients get of a message that is published, but its grid rows. -/
def shared : LiveMessage J :=
  if m.isPsd then
    { m with gridRows := none, powers := m.powers.map roundDb, maxPowers := m.maxPowers.map roundDb
             noiseFloor := m.noiseFloor.map roundDb }
  else { m with gridRows := none }

def withRows (rows : Option J) : LiveMessage J := { m with gridRows := rows }

end LiveMessage

def queueMax : ℕ := 10

def noiseFloorResendSec : ℚ := 1

def encodeCacheFrames : ℕ := 32

/-- A text sent to a client, at a time: of which object, what that holds, and
the keys left out. -/
structure SentText (J T : Type*) where
  frame : ℕ
  message : LiveMessage J
  drops : Drops
  text : T
  at_ : ℚ

/-- A client's state: whether it is published to and whether its send loop runs.
`offered` are the objects it was to get, `accepted` those that found room and
`received` what its socket took, each oldest first; `everHighRes` and
`everVisible` say whether it ever asked for High Res and for frames. -/
structure Subscriber (J T : Type*) where
  subscribed : Bool
  sending : Bool
  queue : List ℕ
  highRes : Bool
  alsoAveraged : Bool
  wantsPsd : Bool
  freqSig : Option (ℕ × ℚ × ℚ)
  nfBins : ℤ
  nfSentAt : ℚ
  sent : ℕ
  dropped : ℕ
  offered : List ℕ
  accepted : List ℕ
  received : List (SentText J T)
  everHighRes : Bool
  everVisible : Bool

namespace Subscriber

variable {J T : Type*} (sub : Subscriber J T)

/-- A socket that opens; a page that only wants the heartbeat asks with `psd=0`. -/
def create (wantsPsd : Bool) : Subscriber J T where
  subscribed := true
  sending := true
  queue := []
  highRes := false
  alsoAveraged := false
  wantsPsd := wantsPsd
  freqSig := none
  nfBins := -1
  nfSentAt := 0
  sent := 0
  dropped := 0
  offered := []
  accepted := []
  received := []
  everHighRes := false
  everVisible := wantsPsd

/-- Whether it takes frames of a mode. -/
def wants (mode : Option String) : Bool :=
  if sub.wantsPsd then
    if mode = some "high_res" then sub.highRes
    else if mode = some "averaged" then !sub.highRes || sub.alsoAveraged
    else true
  else false

/-- The page asks for a mode; in High Res it may want the averaged frames too. -/
def setMode (highRes averaged : Bool) : Subscriber J T :=
  { sub with highRes := highRes, alsoAveraged := averaged, everHighRes := sub.everHighRes || highRes }

def setView (visible : Bool) : Subscriber J T :=
  { sub with wantsPsd := visible, everVisible := sub.everVisible || visible }

/-- Its tasks are cancelled. -/
def stop : Subscriber J T := { sub with sending := false }

def stopped : Bool := !sub.sending

def leave : Subscriber J T := { sub with subscribed := false }

/-- `put_nowait` of an object. -/
def put (frame : ℕ) : Subscriber J T :=
  if sub.queue.length < queueMax then
    { sub with queue := sub.queue ++ [frame], offered := sub.offered ++ [frame], accepted := sub.accepted ++ [frame] }
  else { sub with dropped := sub.dropped + 1, offered := sub.offered ++ [frame] }

/-- Whether it has the axis, and the noise floor of a moment ago. -/
def has (m : LiveMessage J) (now : ℚ) : Drops where
  frequencies := (axisSig m.frequencies).isSome && axisSig m.frequencies == sub.freqSig
  noiseFloor := m.noiseFloor.any fun nf => nf.length = sub.nfBins ∧ now - sub.nfSentAt < noiseFloorResendSec

/-- What it has once a frame is sent to it. -/
def note (m : LiveMessage J) (now : ℚ) : Subscriber J T :=
  let drops := sub.has m now
  let sub := if (axisSig m.frequencies).isSome ∧ drops.frequencies = false then
    { sub with freqSig := axisSig m.frequencies } else sub
  if m.noiseFloor.isSome ∧ drops.noiseFloor = false then
    { sub with nfBins := ((m.noiseFloor.getD []).length : ℤ), nfSentAt := now }
  else sub

/-- `_client_drops`: only frames are sent in part. -/
def clientDrops (m : LiveMessage J) (now : ℚ) : Drops × Subscriber J T :=
  if m.isPsd then (sub.has m now, sub.note m now) else (⟨false, false⟩, sub)

/-- Its next object, sent as `r`: the socket takes it unless the client has closed it. -/
def advance (r : SentText J T) (taken : Bool) : Subscriber J T :=
  if taken then { sub with queue := sub.queue.tail, sent := sub.sent + 1, received := sub.received ++ [r] }
  else { sub with queue := sub.queue.tail, sending := false }

end Subscriber

/-- The texts of a frame, by the keys left out. -/
structure EncodedFrame (T : Type*) where
  frame : ℕ
  texts : Dict Drops T

/-- The texts of recent frames, by the address of the frame. -/
structure EncodeCache (T : Type*) where
  items : Dict ℕ (EncodedFrame T)

namespace EncodeCache

variable {T : Type*} (c : EncodeCache T)

/-- The entry of a frame, made if it has none. -/
def entry (frame address : ℕ) : EncodedFrame T × Dict ℕ (EncodedFrame T) :=
  let held := (c.items.get? address).filter fun e => e.frame = frame
  if held.isSome then (held.getD ⟨frame, .empty⟩, c.items)
  else (⟨frame, .empty⟩, (c.items.modify address ⟨frame, .empty⟩ fun _ => ⟨frame, .empty⟩).keepLast encodeCacheFrames)

/-- `encode`; `dumped` is the text if it has to be made. -/
def encode (frame address : ℕ) (drops : Drops) (dumped : T) : T × EncodeCache T :=
  let e := c.entry frame address
  let held := e.1.texts.get? drops
  if held.isSome then (held.getD dumped, ⟨e.2⟩)
  else
    let noted : EncodedFrame T := ⟨frame, e.1.texts.modify drops dumped fun _ => dumped⟩
    (dumped, ⟨e.2.modify address noted fun _ => noted⟩)

end EncodeCache

/-- The channel: the objects made so far with their addresses, the clients and
the texts kept. -/
structure LiveBroadcast (J T : Type*) where
  objects : List (LiveMessage J × ℕ)
  subscribers : List (Subscriber J T)
  encoded : EncodeCache T

namespace LiveBroadcast

variable {J T : Type*} (dumps : LiveMessage J → T) (b : LiveBroadcast J T)

def create : LiveBroadcast J T := ⟨[], [], ⟨.empty⟩⟩

/-- What `publish` offers a client: an object, or none. -/
def offer (m : LiveMessage J) (sub : Subscriber J T) : Option ℕ :=
  if sub.subscribed ∧ (m.isPsd → sub.wants m.mode) then
    if sub.highRes ∧ m.gridRows.isSome then some (b.objects.length + 1) else some b.objects.length
  else none

/-- `publish`: the objects are made at two addresses. -/
def publish (m : LiveMessage J) (address addressRows : ℕ) : LiveBroadcast J T :=
  { b with
    objects := b.objects ++ [(m.shared, address)] ++
      if m.gridRows.isSome then [(m.shared.withRows m.gridRows, addressRows)] else []
    subscribers := b.subscribers.map fun sub => ((b.offer m sub).map sub.put).getD sub }

/-- What is sent of an object: the keys left out, and the text with the texts then kept. -/
def encodeFor (sub : Subscriber J T) (frame : ℕ) (object : LiveMessage J × ℕ) (now : ℚ) : T × EncodeCache T :=
  let drops := (sub.clientDrops object.1 now).1
  if object.1.isPsd then b.encoded.encode frame object.2 drops (dumps (object.1.without drops))
  else (dumps object.1, b.encoded)

/-- A client once an object of its queue is sent to it. -/
def sendTo (sub : Subscriber J T) (frame : ℕ) (object : LiveMessage J × ℕ) (now : ℚ) (taken : Bool) : Subscriber J T :=
  let text := (b.encodeFor dumps sub frame object now).1
  (sub.clientDrops object.1 now).2.advance ⟨frame, object.1, (sub.clientDrops object.1 now).1, text, now⟩ taken

/-- One turn of a client's send loop. -/
def send (i : ℕ) (now : ℚ) (taken : Bool) : Option (LiveBroadcast J T) :=
  b.subscribers[i]?.bind fun sub => sub.queue.head?.bind fun frame => b.objects[frame]?.bind fun object =>
    if sub.sending then
      some { b with
        subscribers := b.subscribers.set i (b.sendTo dumps sub frame object now taken)
        encoded := (b.encodeFor dumps sub frame object now).2 }
    else none

/-- What happens to the channel. -/
inductive Act (J : Type*)
  | subscribe (wantsPsd : Bool)
  | publish (m : LiveMessage J) (address addressRows : ℕ)
  | send (i : ℕ) (now : ℚ) (taken : Bool)
  | setMode (i : ℕ) (highRes averaged : Bool)
  | setView (i : ℕ) (visible : Bool)
  | cancel (i : ℕ)
  | unsubscribe (i : ℕ)

/-- Something a client does, if it can. -/
def update (i : ℕ) (can : Subscriber J T → Bool) (change : Subscriber J T → Subscriber J T) :
    Option (LiveBroadcast J T) :=
  b.subscribers[i]?.bind fun sub =>
    if can sub then some { b with subscribers := b.subscribers.set i (change sub) } else none

def step : LiveBroadcast J T → Act J → Option (LiveBroadcast J T)
  | b, .subscribe wantsPsd => some { b with subscribers := b.subscribers ++ [.create wantsPsd] }
  | b, .publish m address addressRows => some (b.publish m address addressRows)
  | b, .send i now taken => b.send dumps i now taken
  | b, .setMode i highRes averaged => b.update i Subscriber.subscribed fun sub => sub.setMode highRes averaged
  | b, .setView i visible => b.update i Subscriber.subscribed fun sub => sub.setView visible
  | b, .cancel i => b.update i Subscriber.sending Subscriber.stop
  | b, .unsubscribe i => b.update i Subscriber.stopped Subscriber.leave

end LiveBroadcast

end RFObserver
