import RoboTwinPool.Basic.NdArray
import RoboTwinPool.Basic.Codec
import RoboTwinPool.Worker.Wrapper
import RoboTwinPool.Worker.Loop
import RoboTwinPool.Worker.Chunk
import RoboTwinPool.Worker.Run
import RoboTwinPool.Worker.Health
import RoboTwinPool.Worker.Handshake
import RoboTwinPool.Pool.Controller
import RoboTwinPool.Pool.Safety
import RoboTwinPool.Pool.Seeds
import RoboTwinPool.Pool.Workers
import RoboTwinPool.Pool.Lockstep
import RoboTwinPool.Pool.Liveness
import RoboTwinPool.Pool.Transform
