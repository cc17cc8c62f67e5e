import NetPool.Sim.Session.Basic

/-! Steps at the cache and at the files under it. -/

namespace NetPool.Sim.Session

/-- What can stand in the way of the cache. -/
inductive Obstacle
  | spare
  | lock
  | file

def Obstacle.path (pool : String) : Obstacle → String
  | .spare => cache.spare pool
  | .lock => cache.lockPath pool
  | .file => cache.path pool

def files : Act FileTree := do return (← get).world.files

def onFiles (f : FileTree → Except Failure α × FileTree) : Act α := do
  ofResult .failure (← onWorld fun w => let (r, t) := f w.files; (r, { w with files := t }))

def changeFiles (path : String) (f : FileTree → Except FileFault Unit × FileTree) : Act Unit :=
  onFiles fun t => let (r, t) := f t; (r.mapError fun e => .cache path (.file e), t)

def cached (pool : String) : Act (List AddressRange) := do
  ofResult .failure (cache.load (← files) pool)

def overwrite (pool : String) (content : Bytes) : Act Unit :=
  changeFiles (cache.path pool) fun t => t.writeInside (cache.poolPath pool) (cache.path pool) content

def makeDirectory (pool : String) : Act Unit :=
  changeFiles (cache.poolPath pool) fun t => t.makeDirectories (cache.poolPath pool)

def obstruct (pool : String) (o : Obstacle) : Act Unit := do
  changeFiles (cache.poolPath pool) fun t => t.makeDirectories (cache.poolPath pool)
  changeFiles (o.path pool) fun t =>
    match t.locate (o.path pool) with
    | .error e => (.error e, t)
    | .ok p => (t.remove p).makeDirectories (o.path pool)

def clear (pool : String) (o : Obstacle) : Act Unit :=
  changeFiles (o.path pool) fun t =>
    match t.locate (o.path pool) with
    | .error e => (.error e, t)
    | .ok p => (.ok (), t.remove p)

def cacheFiles (s : Session) : List (String × Bytes) :=
  let t := s.world.files
  ((cache.pools t).toOption.getD []).filterMap fun pool =>
    (t.read (cache.path pool)).toOption.map (pool, ·)

end NetPool.Sim.Session
