import Lookahead.Config
import Lookahead.Pool.Free
import Lookahead.Pool.Swap
import Lookahead.Proofs.Contract
import Lookahead.Proofs.Freeing
import Lookahead.Proofs.Retention
import Lookahead.Proofs.Scanner.Sizes
import Lookahead.Proofs.Streaming
import Lookahead.Scanner.Run
import Lookahead.Scanner.Start
import Lookahead.Source.Scripted
import Lookahead.Token
import Lookahead.Proofs.Scanner.Follows
import Lookahead.Proofs.Scanner.Induction
import Lookahead.Proofs.Looking
import Lookahead.Proofs.Limit
import Lookahead.Proofs.Pool.Holdings
import Lookahead.Proofs.Pool.Stock
import Lookahead.Proofs.Lag
import Lookahead.Proofs.Footprint
import Lookahead.Proofs.ByteQueue
import Lookahead.Proofs.Requests
import Lookahead.Proofs.Integrity
import Lookahead.Proofs.Ending
import Lookahead.Proofs.Thrift
import Lookahead.Proofs.Tiling
import Lookahead.Proofs.Runes
import Lookahead.Proofs.Overfreeing
import Lookahead.Proofs.Rewinding
import Lookahead.Proofs.LastToken
import Lookahead.Proofs.Growth
import Lookahead.Proofs.Instalments
import Lookahead.Proofs.FreeCheck
import Lookahead.Proofs.Selection
import Lookahead.Proofs.Carrying
import Lookahead.Proofs.Pool.Threading
import Lookahead.Proofs.Halting
import Lookahead.Proofs.Marks
import Lookahead.Proofs.Offsets
