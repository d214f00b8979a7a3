import Mathlib.Data.List.Sort
import Mathlib.Logic.Function.Basic
import Resources.Runs

/-!
# `BulkLoader`

A queue of items with a bound on the connections that are open at a time,
for all hosts and for each host. An item is known by its number, in the
place of its url or id, and keeps its number when it is loaded again.
`_connections` is the arrays of all hosts, one after the other: an item's
host tells which one it is in.

A `Loader` is a number too. It is loading and listened to until it is
done, is closed, or its listeners are removed; only then can something
happen to it. Items are those of `ImageItem`, which differ from the
others in what they keep of the content. Progress, statistics and the
content itself are left out, and what listeners of the queue do.
-/

namespace Resources

namespace BulkLoader

/-- What an item's `status` can be besides `null`. It is `null` for a new item
until the player reports the first `OPEN`, where `onStartedHandler` sets
`STATUS_STARTED`, and again after an error when the load is repeated. -/
inductive Status where
  | STATUS_STOPPED
  | STATUS_STARTED
  | STATUS_FINISHED
  | STATUS_ERROR
deriving Repr, DecidableEq

/-- The fields of an item that the queue decides by. `hostName` is read off the
url, and `loader` is the number of the `Loader` that the latest `load` has made
for it, `none` after `destroy`. -/
structure LoadingItem where
  hostName : String
  _priority : ℤ
  _additionIndex : ℕ
  maxTries : ℕ
  numTries : ℕ
  status : Option Status
  _isLoaded : Bool
  _isLoading : Bool
  loader : Option ℕ
deriving Repr, DecidableEq

/-- The events that the queue dispatches itself, in the order in which it does
so: an item has failed for good, or all items have loaded. -/
inductive Out where
  | ERROR (item : ℕ)
  | COMPLETE
deriving Repr, DecidableEq

/-- The fields of the queue, with the items it has made and what the player
knows of their loaders. -/
structure State where
  /-- Every item there has been, by its number, with the fields it has now. An
  item that was removed keeps them. -/
  item : ℕ → LoadingItem
  _items : List ℕ
  _connections : Option (List ℕ)
  _numConnections : ℤ
  maxConnectionsPerHost : ℤ
  /-- The number that the next item gets, which is also how many items there
  have been. -/
  _instances : ℕ
  _additionIndex : ℕ
  _itemsTotal : ℤ
  _itemsLoaded : ℤ
  _isFinished : Bool
  _isPaused : Bool
  /-- The item of every `Loader` there has been, by the loader's number: a
  loader is made for one item and never changes hands. -/
  loaders : List ℕ
  /-- The loaders that are loading and are listened to. Nothing can be heard of
  any other loader. -/
  listeners : List ℕ
  out : List Out

namespace State

/-! ## An item -/

def setItem (i : ℕ) (item : LoadingItem) (s : State) : State :=
  { s with item := Function.update s.item i item }

/-- What `LoadingItem.load` does for an image: a new `Loader` is made for the
item, gets its listeners, and starts to load. A loader that the item had before
is not closed by it, so that it would go on. -/
def load (i : ℕ) (s : State) : State :=
  { s.setItem i { s.item i with _isLoading := true, loader := some s.loaders.length } with
    loaders := s.loaders ++ [i]
    listeners := s.listeners ++ [s.loaders.length] }

/-- `loader.close()`, and also `cleanListeners`: in both cases the item's
loader is not heard of again, whether it was loading or not. -/
def close (i : ℕ) (s : State) : State :=
  match (s.item i).loader with
  | some loader => { s with listeners := s.listeners.erase loader }
  | none => s

/-- An item that has loaded keeps its status; any other one is stopped, and
does not load any more. The loader is closed in either case. -/
def stop (i : ℕ) (s : State) : State :=
  let s := s.close i
  if (s.item i)._isLoaded then s
  else s.setItem i { s.item i with status := some .STATUS_STOPPED, _isLoading := false }

/-- `destroy` stops the item, takes its listeners away and lets go of its
loader. -/
def destroy (i : ℕ) (s : State) : State :=
  let s := (s.stop i).close i
  s.setItem i { s.item i with loader := none }

/-! ## Connections -/

/-- The items that are connected, of all hosts. There are none as long as
`_connections` is `null`. -/
def _getAllConnections (s : State) : List ℕ := s._connections.getD []

/-- `if (!_connections) _connections = {}`, with which `_loadNext` and
`loadNow` begin. -/
def connected (s : State) : State := { s with _connections := some s._getAllConnections }

def _getNumConnections (s : State) : ℤ := s._getAllConnections.length

def _getConnectionsForHostName (hostName : String) (s : State) : List ℕ :=
  s._getAllConnections.filter fun i => (s.item i).hostName = hostName

def _getNumConnectionsForItem (i : ℕ) (s : State) : ℤ :=
  (s._getConnectionsForHostName (s.item i).hostName).length

/-- There is a connection left for the item: at all, and to its host. -/
def _canOpenConnectioForItem (i : ℕ) (s : State) : Bool :=
  if s._getNumConnections ≥ s._numConnections then false
  else if s._getNumConnectionsForItem i ≥ s.maxConnectionsPerHost then false
  else true

def _removeFromConnections (i : ℕ) (s : State) : State :=
  { s with _connections := s._connections.map (·.erase i) }

/-! ## The queue -/

/-- The first item of the list that is not loading, has not been stopped, and
can have a connection. The connections of items that have failed for good are
taken away before it is looked for. -/
def _getNextItemToLoad (s : State) : State × Option ℕ :=
  let s := { s with _connections := s._connections.map fun connections =>
    connections.filter fun i =>
      ¬((s.item i).status = some .STATUS_ERROR ∧ (s.item i).numTries = (s.item i).maxTries) }
  (s, s._items.find? fun i =>
    !(s.item i)._isLoading && (s.item i).status != some .STATUS_STOPPED &&
      s._canOpenConnectioForItem i)

/-- The item gets a connection, at the end of those that there are, and is
loaded. -/
def openConnection (i : ℕ) (s : State) : State :=
  { s with _connections := s._connections.map (· ++ [i]) }.load i

/-- A call of `_loadNext` and those it makes; the first of the numbers is
how many there may be. -/
def loadNext : ℕ → Option ℕ → State → State
  | 0, _, s => s
  | calls + 1, toLoad, s =>
      if s._isFinished then s
      else
        let s := s.connected
        let (s, toLoad) :=
          match toLoad with
          | some i => (s, some i)
          | none => s._getNextItemToLoad
        match toLoad with
        | none => s
        | some i =>
            let s := if s._canOpenConnectioForItem i then s.openConnection i else s
            let (s, next) := s._getNextItemToLoad
            if next.isSome then loadNext calls none s else s

/-- There are no more calls than items, and two (`exhausted_loadNext`). -/
def _loadNext (toLoad : Option ℕ) (s : State) : State := loadNext (s._items.length + 2) toLoad s

/-- A higher priority comes first, and then what was added first. -/
def Before (s : State) (i j : ℕ) : Prop :=
  (s.item j)._priority < (s.item i)._priority ∨
    (s.item i)._priority = (s.item j)._priority ∧
      (s.item i)._additionIndex ≤ (s.item j)._additionIndex

instance (s : State) : DecidableRel s.Before := fun _ _ =>
  inferInstanceAs (Decidable (_ ∨ _ ∧ _))

/-- `sortOn` over `priority`, descending, and `_additionIndex`. Items that
agree in both keep their places here, which the player does not promise: an
item that is reloaded can get the index of the one that was added last. -/
def sortItemsByPriority (s : State) : State :=
  { s with _items := s._items.insertionSort s.Before }

/-- All items of the list are loaded, so that an empty list is done as well. -/
def _isAllDoneP (s : State) : Bool := s._items.all fun i => (s.item i)._isLoaded

/-- The queue is finished, unless it was before: it forgets its connections,
and dispatches `COMPLETE`. -/
def _onAllLoaded (s : State) : State :=
  if s._isFinished then s
  else { s with _connections := some [], _isFinished := true, out := s.out ++ [.COMPLETE] }

/-- `if (allDone) _onAllLoaded()`, with which the handlers and `remove` end. -/
def checkAllDone (s : State) : State := if s._isAllDoneP then s._onAllLoaded else s

/-- `_additionIndex ++`. The number tells items of the same priority apart, the
earlier one first. -/
def nextIndex (s : State) : State := { s with _additionIndex := s._additionIndex + 1 }

/-- An item is put into the list and counted, the list is sorted again, and the
queue is not finished any more. -/
def insert (i : ℕ) (s : State) : State :=
  let s := { s with _items := s._items ++ [i], _itemsTotal := s._itemsTotal + 1 }
  { s.sortItemsByPriority with _isFinished := false }

/-! ## Calls -/

/-- A new item gets the next number and is inserted. -/
def addItem (item : LoadingItem) (s : State) : State :=
  ({ s with _instances := s._instances + 1 }.setItem s._instances item).insert s._instances

/-- `add`, for an id that is not there yet; with one that is there it would
only return the item. A queue that is not paused goes on to load. -/
def add (hostName : String) (priority : ℤ) (maxTries : ℕ) (s : State) : State :=
  let s := s.nextIndex
  let s := s.addItem
    { hostName := hostName, _priority := priority, _additionIndex := s._additionIndex,
      maxTries := maxTries, numTries := 0, status := none, _isLoaded := false,
      _isLoading := false, loader := none }
  if s._isPaused then s else s._loadNext none

/-- The first `start` makes the connections and ends the pause that a new queue
is in. Later ones only look for the next item, after they have set the number
of connections if they are given one. -/
def start (withConnections : ℤ) (s : State) : State :=
  let s := if withConnections > 0 then { s with _numConnections := withConnections } else s
  if s._connections.isSome then s._loadNext none
  else { { s with _connections := some [] }._loadNext none with _isPaused := false }

/-- What `pause` and `pauseAll` do with one item: it is stopped unless it is
finished, and gives its connection up. -/
def pauseItem (i : ℕ) (s : State) : State :=
  let s := if (s.item i).status ≠ some .STATUS_FINISHED then s.stop i else s
  s._removeFromConnections i

def pause (key : ℕ) (loadsNext : Bool) (s : State) : State :=
  if key ∈ s._items then
    let s := s.pauseItem key
    if loadsNext then s._loadNext none else s
  else s

def pauseAll (s : State) : State :=
  { s._items.foldl (fun s i => s.pauseItem i) s with _isPaused := true }

/-- `resume` ends the pause of the whole queue, also where the item was not
stopped and nothing else happens. -/
def resume (key : ℕ) (s : State) : State :=
  let s := { s with _isPaused := false }
  if key ∈ s._items ∧ (s.item key).status = some .STATUS_STOPPED then
    (s.setItem key { s.item key with status := none })._loadNext none
  else s

/-- The items that have been stopped are resumed one after the other, and then
the next item is looked for. -/
def resumeAll (s : State) : State :=
  let s := s._items.foldl (fun s i =>
    if (s.item i).status = some .STATUS_STOPPED then s.resume i else s) s
  s._loadNext none

/-- The highest priority in the list, and `int.MIN_VALUE` in an empty one. -/
def highestPriority (s : State) : ℤ :=
  s._items.foldl (fun highest i =>
    if (s.item i)._priority > highest then (s.item i)._priority else highest) (-2147483648)

/-- The connected item that `loadNow` has found to be the least urgent one is
paused, and its status is set back so that it can be loaded later. -/
def closeConnection (itemToRemove : ℕ) (s : State) : State :=
  let s := (s.pauseItem itemToRemove)._removeFromConnections itemToRemove
  s.setItem itemToRemove { s.item itemToRemove with status := none }

/-- The item is made as urgent as any other one, without sorting, and asked to
be loaded. -/
def loadFirst (i : ℕ) (s : State) : State :=
  (s.setItem i { s.item i with _priority := s.highestPriority })._loadNext (some i)

/-- A connection is closed if there has to be one for the item. The least
urgent item is chosen by a call of `sortOn` that has more options than
fields; here it may be any. There is an error if no connection is open. -/
def loadNow (key least : ℕ) (s : State) : Option State :=
  if key ∈ s._items then
    let s := s.connected
    if (s.item key).status = some .STATUS_FINISHED ∨
        (s.item key).status = some .STATUS_STARTED then some s
    else if s._getNumConnections ≥ s._numConnections ∨
        s._getNumConnectionsForItem key ≥ s.maxConnectionsPerHost then
      if least ∈ s._getAllConnections then some ((s.closeConnection least).loadFirst key) else none
    else some (s.loadFirst key)
  else some s

def _removeFromItems (i : ℕ) (s : State) : State :=
  if i ∈ s._items then
    { s with
      _items := s._items.erase i
      _itemsLoaded := if (s.item i)._isLoaded then s._itemsLoaded - 1 else s._itemsLoaded
      _itemsTotal := s._itemsTotal - 1 }
  else s

/-- An item that is to be loaded again is in the list as if it was new. -/
def requeue (i : ℕ) (s : State) : State :=
  let s := (s._removeFromItems i)._removeFromConnections i
  let s := (s.stop i).close i
  let s := s.setItem i { s.item i with status := none, _additionIndex := s._additionIndex }
  s.nextIndex.insert i

def reload (key least : ℕ) (s : State) : Option State :=
  if key ∈ s._items then (s.requeue key).loadNow key least else some s

/-- An internal call of `remove`: the item goes out of the list and of the
connections, and is destroyed. That the queue may be finished by it is looked
at by the public call only. -/
def removeItem (i : ℕ) (s : State) : State :=
  ((s._removeFromItems i)._removeFromConnections i).destroy i

def remove (key : ℕ) (s : State) : State :=
  if key ∈ s._items then (s.removeItem key).checkAllDone else s

def removeAll (s : State) : State :=
  { s._items.foldl (fun s i => s.removeItem i) s with _items := [], _connections := some [] }

/-- `removePausedItems` and `removeFailedItems`: the items that have the status
at the beginning are removed one after the other, and the queue goes on to
load. -/
def removeWith (status : Status) (s : State) : State :=
  let items := s._items.filter fun i => (s.item i).status = some status
  (items.foldl (fun s i => s.remove i) s)._loadNext none

def removePausedItems : State → State := removeWith .STATUS_STOPPED

def removeFailedItems : State → State := removeWith .STATUS_ERROR

/-- The list is sorted again after that, but nothing is loaded or closed for
it. -/
def changeItemPriority (key : ℕ) (newPriority : ℤ) (s : State) : State :=
  if key ∈ s._items then
    (s.setItem key { s.item key with _priority := newPriority }).sortItemsByPriority
  else s

/-! ## What happens to a loader -/

/-- The listener of the queue to an item that has loaded: the item gives its
connection up, and the next one is loaded. -/
def _onItemComplete (i : ℕ) (s : State) : State :=
  (((s._removeFromConnections i).close i)._loadNext none).checkAllDone

def _incrementItemsLoaded (s : State) : State := { s with _itemsLoaded := s._itemsLoaded + 1 }

/-- `onCompleteHandler` of the item, and the two listeners of the queue that
its event reaches: the one that counts comes first, by its priority. -/
def onCompleteHandler (i : ℕ) (s : State) : State :=
  let s := s.setItem i { s.item i with status := some .STATUS_FINISHED, _isLoaded := true }
  if i ∈ s._items then s._incrementItemsLoaded._onItemComplete i else s

def _onItemError (i : ℕ) (s : State) : State :=
  let s := (s._removeFromConnections i)._loadNext none
  { s with out := s.out ++ [.ERROR i] }

def onSecurityErrorHandler (i : ℕ) (s : State) : State :=
  let s := s.setItem i { s.item i with status := some .STATUS_ERROR }
  if i ∈ s._items then s._onItemError i else s

/-- After an error an item is loaded again at once, on the connection it has,
until it has been tried `maxTries` times. Then it has failed, as it does after
a security error at the first time. -/
def onErrorHandler (i : ℕ) (s : State) : State :=
  let s := s.setItem i { s.item i with numTries := (s.item i).numTries + 1 }
  if (s.item i).numTries < (s.item i).maxTries then
    (s.setItem i { s.item i with status := none }).load i
  else s.onSecurityErrorHandler i

def onStartedHandler (i : ℕ) (s : State) : State :=
  s.setItem i { s.item i with status := some .STATUS_STARTED }

end State

/-- `new BulkLoader`, with its public bound for each host. A number of
connections that is not positive stands for the default, 12. -/
def new (numConnections maxConnectionsPerHost : ℤ) : State where
  item _ := ⟨"", 0, 0, 0, 0, none, false, false, none⟩
  _items := []
  _connections := none
  _numConnections := if numConnections > 0 then numConnections else 12
  maxConnectionsPerHost := maxConnectionsPerHost
  _instances := 0
  _additionIndex := 0
  _itemsTotal := 0
  _itemsLoaded := 0
  _isFinished := false
  _isPaused := true
  loaders := []
  listeners := []
  out := []

/-- The calls of the queue's methods, and what happens to its loaders. -/
inductive Event where
  | add (hostName : String) (priority : ℤ) (maxTries : ℕ)
  | start (withConnections : ℤ)
  | reload (key least : ℕ)
  | loadNow (key least : ℕ)
  | pause (key : ℕ) (loadsNext : Bool)
  | pauseAll
  | resume (key : ℕ)
  | resumeAll
  | remove (key : ℕ)
  | removeAll
  | removePausedItems
  | removeFailedItems
  | changeItemPriority (key : ℕ) (newPriority : ℤ)
  /-- What the player says of a loader: that it has connected, has loaded, or
  has failed in one way or another. -/
  | onStarted (loader : ℕ)
  | onComplete (loader : ℕ)
  | onError (loader : ℕ)
  | onSecurityError (loader : ℕ)

/-- Something happens to a loader that is heard of, for its item; after all
but its start it is done. -/
def State.hear (loader : ℕ) (done : Bool) (handler : ℕ → State → State) (s : State) :
    Option State :=
  if loader ∈ s.listeners then
    s.loaders[loader]?.map fun i =>
      handler i (if done then { s with listeners := s.listeners.erase loader } else s)
  else none

open State in
/-- One event. A call for an item that the queue does not have changes nothing,
and a loader that is not heard of has no event. -/
def step (s : State) : Event → Option State
  | .add hostName priority maxTries => some (s.add hostName priority maxTries)
  | .start withConnections => some (s.start withConnections)
  | .reload key least => s.reload key least
  | .loadNow key least => s.loadNow key least
  | .pause key loadsNext => some (s.pause key loadsNext)
  | .pauseAll => some s.pauseAll
  | .resume key => some (s.resume key)
  | .resumeAll => some s.resumeAll
  | .remove key => some (s.remove key)
  | .removeAll => some s.removeAll
  | .removePausedItems => some s.removePausedItems
  | .removeFailedItems => some s.removeFailedItems
  | .changeItemPriority key newPriority => some (s.changeItemPriority key newPriority)
  | .onStarted loader => s.hear loader false onStartedHandler
  | .onComplete loader => s.hear loader true onCompleteHandler
  | .onError loader => s.hear loader true onErrorHandler
  | .onSecurityError loader => s.hear loader true onSecurityErrorHandler

end BulkLoader

end Resources
