import TmkDcl.Bytes

/-!
# Connections (tcp/include/tcp/connection.h, tcp/src/connection.c)

The receive buffers of a connection: `buffer` and `offset` of the messenger, `request`
and `request_used` of the older server loop.
-/

namespace TmkDcl.Tcp

/-- `MAX_MSG_LEN` (`connection.h:11`). -/
def maxMsgLen : ℕ := 512

/-- The newline that ends a line. -/
def newline : UInt8 := 10

/-- `struct connection` (`connection.h:13-29`). -/
structure Connection where
  offset : ℕ
  buffer : Bytes
  request : Bytes
  requestUsed : ℕ

/-- `connection_add` (`connection.c:8-18`); the struct is zeroed. -/
def connectionAdd : Connection where
  offset := 0
  buffer := List.replicate (maxMsgLen + 1) 0
  request := List.replicate (maxMsgLen + 1) 0
  requestUsed := 0

end TmkDcl.Tcp
