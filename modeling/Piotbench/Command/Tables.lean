import Piotbench.Command.Params

/-!
# The two tables

`server_params` of `src/server/main.c` and `client_params` of `src/client/main.c`, with the layout
of `struct server_config_t` and `struct client_config_t`.
-/

namespace Piotbench.Command

open Server Bytes

/-! ## The server -/

namespace ServerParams

def socketPath : Param := paramStr "socket_path" "/tmp/bench-server" 0
def loadComputeDur : Param := paramNumber .uint "load.compute_dur" 100 128
def loadMaxIoSize : Param := paramNumber .uint "load.max_io_size" 128 132
def loadReadahead : Param := paramNumber .uint "load.readahead" 1000 136
def threadsIo : Param := paramNumber .uint "threads.io" 1 140
def threadsCompute : Param := paramNumber .uint "threads.compute" 1 152
def threadsSubmit : Param := paramNumber .uint "threads.submit" 1 148
def threadsAccept : Param := paramNumber .uint "threads.accept" 1 144
def allocSessions : Param := paramNumber .uint "alloc.sessions" 100 156
def allocBuffers : Param := paramNumber .uint "alloc.buffers" 100000 160
def kerncallGlobal : Param := paramNumber .uint "kerncall.global" 1 164
def kerncallIo : Param := paramNumber .uint "kerncall.io" 0 168
def kerncallAccept : Param := paramNumber .uint "kerncall.accept" 0 172
def kerncallSubmit : Param := paramNumber .uint "kerncall.submit" 0 176

end ServerParams

open ServerParams in
def serverParams : List Param :=
  [socketPath, loadComputeDur, loadMaxIoSize, loadReadahead, threadsIo, threadsCompute,
    threadsSubmit, threadsAccept, allocSessions, allocBuffers, kerncallGlobal, kerncallIo,
    kerncallAccept, kerncallSubmit]

/-- `cfg.socket_path`. -/
def socketPath (m : Nat → Byte) : List Byte := cstring m 0 paramValueMax

/-- The numbers of a `struct server_config_t` in memory, less the kerncall switches. -/
def serverConfig (m : Nat → Byte) : ServerConfig where
  load :=
    { computeDur := uintAt m 128
      maxIoSize := uintAt m 132
      readahead := uintAt m 136 }
  threads :=
    { io := uintAt m 140
      accept := uintAt m 144
      submit := uintAt m 148
      compute := uintAt m 152 }
  alloc :=
    { sessions := uintAt m 156
      buffers := uintAt m 160 }

/-! ## The client -/

namespace ClientParams

def serverPath : Param := paramStr "server_path" "/tmp/bench-server" 0
def nrThreads : Param := paramNumber .uint "nr_threads" 1 128
def nrConnections : Param := paramNumber .uint "nr_connections" 20 132
def nrRequests : Param := paramNumber .uint "nr_requests" 100000 136
def duration : Param := paramNumber .int "duration" (UInt64.size - 1) 140

end ClientParams

open ClientParams in
def clientParams : List Param := [serverPath, nrThreads, nrConnections, nrRequests, duration]

/-- `struct client_config_t`. -/
structure ClientConfig where
  serverPath : List Byte
  nrThreads : Nat
  nrConnections : Nat
  nrRequests : Nat
  duration : Int

/-- A `struct client_config_t` in memory. -/
def clientConfig (m : Nat → Byte) : ClientConfig where
  serverPath := cstring m 0 paramValueMax
  nrThreads := uintAt m 128
  nrConnections := uintAt m 132
  nrRequests := uintAt m 136
  duration := (BitVec.ofNat 32 (uintAt m 140)).toInt

/-! ## Both are well formed -/

instance (p q : Param) : Decidable (p.Apart q) := inferInstanceAs (Decidable (_ ∨ _))

theorem serverParams_ok : TableOk serverParams where
  names := by decide +kernel
  fields := by decide +kernel

theorem clientParams_ok : TableOk clientParams where
  names := by decide +kernel
  fields := by decide +kernel

end Piotbench.Command
