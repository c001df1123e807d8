/-
The handlers of a server, `src/KVServer.cpp`.

A handler responds 1 when the call on its store returns, and 0 when it throws.
-/
import DistKV.Store

namespace DistKV

namespace Server

/-- What the write handlers have in common: the response, and the server after it. -/
def respond (call : KvStore → Attempt Unit) (s : Server) : Int × Server :=
  match (call s.kv).run s.host with
  | .ok _ h => (1, { s with host := h })
  | .error _ h => (0, { s with host := h })

def kvInsert (env : MemEnv) (key : Key) (value : Bytes) (s : Server) : Int × Server :=
  s.respond fun kv => kv.insert env key value

def kvUpdate (env : MemEnv) (key : Key) (value : Bytes) (s : Server) : Int × Server :=
  s.respond fun kv => kv.update env key value

def kvDelete (key : Key) (s : Server) : Int × Server :=
  s.respond fun kv => kv.delete key

end Server

end DistKV
