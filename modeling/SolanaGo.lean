import SolanaGo.AllocationBounds
import SolanaGo.Bin.CompactU16
import SolanaGo.Bin.Sequences
import SolanaGo.Builder.V1
import SolanaGo.Builder.Wire
import SolanaGo.ComputeBudget
import SolanaGo.Confirm.Histories
import SolanaGo.DataJson
import SolanaGo.KeygenFile
import SolanaGo.MessageRoles
import SolanaGo.Mnemonic.Wallet
import SolanaGo.Receivers
import SolanaGo.Rpc.BreakOff
import SolanaGo.Rpc.MultipleAccounts
import SolanaGo.Rpc.ScanAnyReader
import SolanaGo.Token2022.Balances
import SolanaGo.Token2022.Initialize
import SolanaGo.Token2022.RangeEquations
import SolanaGo.Token2022.RangeRoundTrip
import SolanaGo.Token2022.Record
import SolanaGo.Token2022.Soundness
import SolanaGo.Token2022.TableWorkers
import SolanaGo.Transport
import SolanaGo.Ws.Delivery
import SolanaGo.Yellowstone.Convert
import SolanaGo.Yellowstone.Pipe
