import RuskProofs.Accumulator
import RuskProofs.QuorumVerifiers
import RuskProofs.Wire.Reader
import RuskProofs.Wire.Encoding
import RuskProofs.Wire.SpentTransaction
import RuskProofs.Chain.Basic
import RuskProofs.Chain.Provisioners
import RuskProofs.Chain.Accept
import RuskProofs.Chain.Runs
import RuskProofs.Chain.Labels
import RuskProofs.Chain.Revert
import RuskProofs.Network
